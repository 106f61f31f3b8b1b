/-
# NovaRuntime.Search.Consistency — the index says of the documents what they contain

`Consistent` compares posting lists, lengths and counters with the stored documents. That
nothing refers to a document that is gone holds in every run (`Sound`). The rest holds exactly
as long as no added document has two text fields of one name of which an earlier one has
tokens, no term occurs `2 ^ 32` times, and no deleted document has tokens: `consistent_iff`.
Entry by entry the lists are those of the stored fields in every run: `exact_run`.
-/
import NovaRuntime.Library.Runs
import NovaRuntime.Search.Index

namespace NovaRuntime.Search

open NovaRuntime.Library
open NovaRuntime.Object (insertEntry insertEntry_of_fresh)

set_option autoImplicit false

/-! ## Consistency -/

/-- How often a term occurs in the fields of a name. -/
def occurrences (A : Analyzer) (name term : Text) (doc : IndexedDocument) : Nat :=
  ((fieldTokens A name doc.fields).map fun tokens => (positionsOf term tokens).length).sum

def fieldLength (A : Analyzer) (name : Text) (doc : IndexedDocument) : Nat :=
  ((fieldTokens A name doc.fields).map List.length).sum

namespace InMemorySegment

def keys (seg : InMemorySegment) : List Text := seg.storedDocuments.map Prod.fst

/-- The frequencies that a posting list has for a document. -/
def frequencies (seg : InMemorySegment) (key field term : Text) : List Nat :=
  ((seg.postings field term).filter fun e => docKey e.docId = key).map PostingEntry.termFrequency

end InMemorySegment

/-- A list with one number, or none for zero. -/
def once (n : Nat) : List Nat := if n = 0 then [] else [n]

structure Consistent (A : Analyzer) (seg : InMemorySegment) : Prop where
  postings : ∀ e ∈ seg.storedDocuments, ∀ field term,
    seg.frequencies e.1 field term = once (occurrences A field term e.2)
  lengths : ∀ e ∈ seg.storedDocuments, ∀ field, seg.length field e.1 =
    if fieldTokens A field e.2.fields = [] then none else some (fieldLength A field e.2)
  totalTokens : seg.totalTokens = (seg.storedDocuments.map fun e => docTokens A e.2).sum
  docCount : seg.docCount = seg.storedDocuments.length
  noPosting : ∀ field term, ∀ e ∈ seg.postings field term, docKey e.docId ∈ seg.keys
  noLength : ∀ field key, seg.length field key ≠ none → key ∈ seg.keys
  noValue : ∀ field key, seg.value field key ≠ none → key ∈ seg.keys

/-! ## Runs -/

inductive WriterCall where
  | addDocument (doc : IndexedDocument)
  | deleteDocument (docId : Text)

def WriterCall.perform (A : Analyzer) : WriterCall → Method Unit
  | .addDocument doc => IndexWriter.addDocument A doc
  | .deleteDocument docId => IndexWriter.deleteDocument docId

def IndexWriter.step (A : Analyzer) (w : IndexWriter) (call : WriterCall) : IndexWriter := (call.perform A w).2

/-- Of the text fields of one name only the last has tokens, and no term is too frequent. -/
structure Plain (A : Analyzer) (doc : IndexedDocument) : Prop where
  last : ∀ name, ∀ tokens ∈ (fieldTokens A name doc.fields).dropLast, tokens = []
  frequencies : ∀ name term, occurrences A name term doc < 2 ^ 32

/-- An added document is plain once it is normalized, a deleted one has no tokens. -/
def Harmless (A : Analyzer) (w : IndexWriter) : WriterCall → Prop
  | .addDocument doc => Plain A (normalize A doc)
  | .deleteDocument docId => ∀ doc, w.segment.storedDocuments.lookup docId = some doc → docTokens A doc = 0

/-- What every call keeps. -/
structure Sound (w : IndexWriter) : Prop where
  distinct : w.segment.keys.Nodup
  numbered : ∀ key ∈ w.segment.keys, ∃ n < w.nextDocId, key = docKey n
  docCount : w.segment.docCount = w.segment.storedDocuments.length
  noPosting : ∀ field term, ∀ e ∈ w.segment.postings field term, docKey e.docId ∈ w.segment.keys
  noLength : ∀ field key, w.segment.length field key ≠ none → key ∈ w.segment.keys
  noValue : ∀ field key, w.segment.value field key ≠ none → key ∈ w.segment.keys

theorem sound_new : Sound .new := ⟨.nil, nofun, rfl, nofun, fun _ _ some => absurd rfl some, fun _ _ some => absurd rfl some⟩

theorem consistent_new (A : Analyzer) : Consistent A InMemorySegment.new :=
  ⟨nofun, nofun, rfl, rfl, nofun, fun _ _ some => absurd rfl some, fun _ _ some => absurd rfl some⟩

/-! ## Fields of one name -/

/-- The last length is the sum exactly if no earlier field has tokens. -/
theorem getLast?_length_iff (fields : List (List Token)) :
    (fields.map List.length).getLast? = (if fields = [] then none else some (fields.map List.length).sum) ↔
      ∀ tokens ∈ fields.dropLast, tokens = [] := by
  rcases List.eq_nil_or_concat fields with rfl | ⟨front, last, rfl⟩
  · simp
  · rw [List.concat_eq_append, if_neg (by simp), List.map_append, List.map_singleton, List.getLast?_concat,
      List.dropLast_concat, Option.some_inj, List.sum_append, List.sum_singleton]
    have zero : last.length = (front.map List.length).sum + last.length ↔ (front.map List.length).sum = 0 := by
      omega
    rw [zero, List.sum_eq_zero_iff_forall_eq_nat, List.forall_mem_map]
    exact forall₂_congr fun tokens _ => List.length_eq_zero_iff

/-- Where only the last field has tokens, the frequencies are right exactly if the term is not
too frequent for its counter. -/
theorem frequencies_iff (docId : Nat) (term : Text) {fields : List (List Token)}
    (last : ∀ tokens ∈ fields.dropLast, tokens = []) :
    (fields.filterMap (entryOf docId term)).map PostingEntry.termFrequency =
        once (fields.map fun tokens => (positionsOf term tokens).length).sum ↔
      (fields.map fun tokens => (positionsOf term tokens).length).sum < 2 ^ 32 := by
  rcases List.eq_nil_or_concat fields with rfl | ⟨front, tokens, rfl⟩
  · simp [once]
  · rw [List.concat_eq_append] at last ⊢
    rw [List.dropLast_concat] at last
    have noEntry : front.filterMap (entryOf docId term) = [] :=
      List.filterMap_eq_nil_iff.mpr fun ts inFront => by rw [last ts inFront]; rfl
    have nothing : (front.map fun ts => (positionsOf term ts).length).sum = 0 :=
      List.sum_eq_zero_iff_forall_eq_nat.mpr (List.forall_mem_map.mpr fun ts inFront => by rw [last ts inFront]; rfl)
    rw [List.filterMap_append, noEntry, List.nil_append, List.map_append, List.sum_append, nothing, Nat.zero_add,
      List.map_singleton, List.sum_singleton, List.filterMap_cons, List.filterMap_nil, entryOf, once]
    by_cases absent : positionsOf term tokens = []
    · simp [absent]
    · have some : (positionsOf term tokens).length ≠ 0 := by simpa using absent
      simp only [absent, some, if_false, List.map_singleton, List.cons.injEq, and_true]
      exact ⟨fun same => same ▸ Nat.mod_lt _ (by decide), fun small => Nat.mod_eq_of_lt small⟩

theorem docId_of_entryOf {docId : Nat} {term : Text} {tokens : List Token} {p : PostingEntry}
    (isEntry : entryOf docId term tokens = some p) : p.docId = docId := by
  rw [entryOf] at isEntry
  split at isEntry
  · cases isEntry
  · cases isEntry
    rfl

/-! ## Adding -/

section Adding

variable {A : Analyzer} {w : IndexWriter}

/-- The number of the next document is no key yet. -/
theorem Sound.fresh (sound : Sound w) : docKey w.nextDocId ∉ w.segment.keys := by
  intro member
  obtain ⟨n, below, same⟩ := sound.numbered _ member
  have := docKey_injective same
  omega

/-- **What adding leaves.** -/
theorem Sound.addDocument_eq (sound : Sound w) (doc : IndexedDocument) :
    let seg := (normalize A doc).fields.foldl (addField A w.nextDocId) w.segment
    w.step A (.addDocument doc) =
      { segment := { seg with
          storedDocuments := w.segment.storedDocuments ++ [(docKey w.nextDocId, normalize A doc)]
          docCount := w.segment.docCount + 1 }
        nextDocId := w.nextDocId + 1 } := by
  intro seg
  obtain ⟨-, stored, count⟩ := counts_addFields A w.nextDocId w.segment (normalize A doc).fields
  have appended : insertEntry (docKey w.nextDocId) (normalize A doc) seg.storedDocuments =
      w.segment.storedDocuments ++ [(docKey w.nextDocId, normalize A doc)] := by
    rw [stored, insertEntry_of_fresh _ sound.fresh]
  rw [IndexWriter.step, WriterCall.perform, IndexWriter.addDocument, Exec.modify_apply]
  simp only [appended, count, seg]

theorem Sound.add (sound : Sound w) (doc : IndexedDocument) : Sound (w.step A (.addDocument doc)) := by
  have fresh := sound.fresh
  rw [sound.addDocument_eq]
  have keys : ∀ {key}, key ∈ w.segment.keys →
      key ∈ (w.segment.storedDocuments ++ [(docKey w.nextDocId, normalize A doc)]).map Prod.fst := by
    intro key member
    rw [List.map_append]
    exact List.mem_append_left _ member
  have new : docKey w.nextDocId ∈
      (w.segment.storedDocuments ++ [(docKey w.nextDocId, normalize A doc)]).map Prod.fst := by simp
  refine ⟨?_, ?_, ?_, ?_, ?_, ?_⟩
  · rw [InMemorySegment.keys, List.map_append]
    refine List.nodup_append.mpr ⟨sound.distinct, List.nodup_singleton _, ?_⟩
    intro key member key' isNew same
    have next : key = docKey w.nextDocId := same.trans (List.mem_singleton.mp isNew)
    exact fresh (next ▸ member)
  · intro key member
    rw [InMemorySegment.keys, List.map_append, List.mem_append] at member
    rcases member with old | isNew
    · obtain ⟨n, below, same⟩ := sound.numbered key old
      exact ⟨n, below.trans (Nat.lt_succ_self _), same⟩
    · exact ⟨w.nextDocId, Nat.lt_succ_self _, List.mem_singleton.mp isNew⟩
  · rw [List.length_append, sound.docCount]
    rfl
  · intro field term e member
    change e ∈ ((normalize A doc).fields.foldl (addField A w.nextDocId) w.segment).postings field term at member
    rw [postings_addFields, List.mem_append, List.mem_filterMap] at member
    rcases member with old | ⟨tokens, -, isEntry⟩
    · exact keys (sound.noPosting field term e old)
    · rw [docId_of_entryOf isEntry]
      exact new
  · intro field key held
    change ((normalize A doc).fields.foldl (addField A w.nextDocId) w.segment).length field key ≠ none at held
    rw [length_addFields] at held
    split at held
    next here => exact here ▸ new
    next => exact keys (sound.noLength field key held)
  · intro field key held
    change ((normalize A doc).fields.foldl (addField A w.nextDocId) w.segment).value field key ≠ none at held
    by_cases here : key = docKey w.nextDocId
    · exact here ▸ new
    · rw [value_addFields _ here] at held
      exact keys (sound.noValue field key held)

/-- **Adding keeps the index consistent** exactly if the document is plain. -/
theorem consistent_add (sound : Sound w) (consistent : Consistent A w.segment) (doc : IndexedDocument) :
    Consistent A (w.step A (.addDocument doc)).segment ↔ Plain A (normalize A doc) := by
  have sound' : Sound (w.step A (.addDocument doc)) := sound.add doc
  have fresh := sound.fresh
  have equation := sound.addDocument_eq (A := A) doc
  set d := normalize A doc
  set k := docKey w.nextDocId
  set seg' := (w.step A (.addDocument doc)).segment
  have stored : seg'.storedDocuments = w.segment.storedDocuments ++ [(k, d)] := by
    simp only [seg', equation]
  have postings : ∀ field term, seg'.postings field term = w.segment.postings field term ++
      (fieldTokens A field d.fields).filterMap (entryOf w.nextDocId term) := by
    intro field term
    rw [← postings_addFields]
    simp only [seg', equation]
    rfl
  have lengths : ∀ field key, seg'.length field key = if key = k then
      (((fieldTokens A field d.fields).map List.length).getLast?).or (w.segment.length field key)
      else w.segment.length field key := by
    intro field key
    rw [← length_addFields]
    simp only [seg', equation]
    rfl
  have tokens : seg'.totalTokens = w.segment.totalTokens + docTokens A d := by
    simp only [seg', equation]
    exact (counts_addFields _ _ _ d.fields).1
  have oldKey : ∀ e ∈ w.segment.storedDocuments, e.1 ≠ k := by
    rintro e member same
    exact fresh (same ▸ List.mem_map_of_mem member)
  -- what the index says of the documents that were there does not change
  have oldFrequencies : ∀ e ∈ w.segment.storedDocuments, ∀ field term,
      seg'.frequencies e.1 field term = w.segment.frequencies e.1 field term := by
    intro e member field term
    have other : ((fieldTokens A field d.fields).filterMap (entryOf w.nextDocId term)).filter
        (fun p => docKey p.docId = e.1) = [] := by
      refine List.filter_eq_nil_iff.mpr fun p isNew => ?_
      obtain ⟨tokens, -, isEntry⟩ := List.mem_filterMap.mp isNew
      rw [docId_of_entryOf isEntry, decide_eq_true_eq]
      exact Ne.symm (oldKey e member)
    rw [InMemorySegment.frequencies, postings, List.filter_append, other, List.append_nil]
    rfl
  have newFrequencies : ∀ field term, seg'.frequencies k field term =
      ((fieldTokens A field d.fields).filterMap (entryOf w.nextDocId term)).map PostingEntry.termFrequency := by
    intro field term
    have none : (w.segment.postings field term).filter (fun p => docKey p.docId = k) = [] := by
      refine List.filter_eq_nil_iff.mpr fun p old same => ?_
      exact fresh (of_decide_eq_true same ▸ sound.noPosting field term p old)
    have all : ((fieldTokens A field d.fields).filterMap (entryOf w.nextDocId term)).filter
        (fun p => docKey p.docId = k) = (fieldTokens A field d.fields).filterMap (entryOf w.nextDocId term) := by
      refine List.filter_eq_self.mpr fun p isNew => ?_
      obtain ⟨tokens, -, isEntry⟩ := List.mem_filterMap.mp isNew
      rw [docId_of_entryOf isEntry, decide_eq_true_eq]
    rw [InMemorySegment.frequencies, postings, List.filter_append, none, all, List.nil_append]
  have newLengths : ∀ field, seg'.length field k = ((fieldTokens A field d.fields).map List.length).getLast? := by
    intro field
    have none : w.segment.length field k = none := by
      by_contra held
      exact fresh (sound.noLength field k held)
    rw [lengths, if_pos rfl, none, Option.or_none]
  constructor
  · intro next
    have newest : (k, d) ∈ seg'.storedDocuments := by rw [stored]; simp
    have last : ∀ field, ∀ ts ∈ (fieldTokens A field d.fields).dropLast, ts = [] := fun field =>
      (getLast?_length_iff _).mp ((newLengths field).symm.trans (next.lengths _ newest field))
    refine ⟨last, fun field term => ?_⟩
    exact (frequencies_iff w.nextDocId term (last field)).mp
      ((newFrequencies field term).symm.trans (next.postings _ newest field term))
  · intro plain
    refine ⟨?_, ?_, ?_, sound'.docCount, sound'.noPosting, sound'.noLength, sound'.noValue⟩
    · intro e member field term
      rw [stored, List.mem_append, List.mem_singleton] at member
      rcases member with old | rfl
      · rw [oldFrequencies e old, consistent.postings e old]
      · rw [newFrequencies]
        exact (frequencies_iff w.nextDocId term (plain.last field)).mpr (plain.frequencies field term)
    · intro e member field
      rw [stored, List.mem_append, List.mem_singleton] at member
      rcases member with old | rfl
      · rw [lengths, if_neg (oldKey e old), consistent.lengths e old]
      · rw [newLengths]
        exact (getLast?_length_iff _).mpr (plain.last field)
    · rw [tokens, stored, consistent.totalTokens, List.map_append, List.sum_append, List.map_singleton,
        List.sum_singleton]

end Adding

/-! ## Deleting -/

/-- **Removing a key** takes one entry out of a map. -/
theorem perm_remove {V : Type} {map : List (Text × V)} (distinct : (map.map Prod.fst).Nodup) {key : Text}
    {value : V} (found : map.lookup key = some value) :
    map.Perm ((key, value) :: map.filter fun e => e.1 ≠ key) := by
  induction map with
  | nil => cases found
  | cons e map ih =>
    obtain ⟨key', value'⟩ := e
    obtain ⟨fresh, rest⟩ := List.nodup_cons.mp distinct
    rw [lookup_cons_if] at found
    split at found
    next here =>
      subst here
      cases found
      have others : map.filter (fun e => e.1 ≠ key) = map := List.filter_eq_self.mpr fun e member => by
        rw [decide_eq_true_eq]
        rintro same
        exact fresh (List.mem_map.mpr ⟨e, member, same⟩)
      rw [List.filter_cons_of_neg (by simp), others]
    next here =>
      rw [List.filter_cons_of_pos (by simpa using Ne.symm here)]
      exact ((ih rest found).cons _).trans (.swap ..)

section Deleting

variable {A : Analyzer} {w : IndexWriter} {key : Text}

theorem delete_absent (absent : w.segment.storedDocuments.lookup key = none) :
    w.step A (.deleteDocument key) = w := by
  rw [IndexWriter.step, WriterCall.perform, IndexWriter.deleteDocument, Exec.get_bind, absent]
  rfl

theorem delete_found {doc : IndexedDocument} (found : w.segment.storedDocuments.lookup key = some doc) :
    w.step A (.deleteDocument key) = { w with segment := IndexWriter.remove key w.segment } := by
  rw [IndexWriter.step, WriterCall.perform, IndexWriter.deleteDocument, Exec.get_bind, found]
  rfl

theorem mem_keys_remove (key' : Text) (seg : InMemorySegment) :
    key' ∈ (IndexWriter.remove key seg).keys ↔ key' ∈ seg.keys ∧ key' ≠ key := by
  simp only [InMemorySegment.keys, IndexWriter.remove, List.mem_map, List.mem_filter, decide_eq_true_eq]
  constructor
  · rintro ⟨e, ⟨member, other⟩, rfl⟩
    exact ⟨⟨e, member, rfl⟩, other⟩
  · rintro ⟨⟨e, member, rfl⟩, other⟩
    exact ⟨e, ⟨member, other⟩, rfl⟩

theorem Sound.remove (sound : Sound w) {doc : IndexedDocument}
    (found : w.segment.storedDocuments.lookup key = some doc) :
    Sound { w with segment := IndexWriter.remove key w.segment } := by
  refine ⟨?_, ?_, ?_, ?_, ?_, ?_⟩
  · exact sound.distinct.sublist (List.filter_sublist.map _)
  · intro key' member
    exact sound.numbered key' ((mem_keys_remove key' w.segment).mp member).1
  · have size := (perm_remove sound.distinct found).length_eq
    have count : (IndexWriter.remove key w.segment).docCount = w.segment.docCount - 1 := rfl
    rw [count, sound.docCount, size, List.length_cons, Nat.add_sub_cancel]
    rfl
  · intro field term e member
    rw [postings_remove, List.mem_filter, decide_eq_true_eq] at member
    exact (mem_keys_remove _ _).mpr ⟨sound.noPosting field term e member.1, member.2⟩
  · intro field key' held
    rw [length_remove] at held
    split at held
    next => exact absurd rfl held
    next other => exact (mem_keys_remove _ _).mpr ⟨sound.noLength field key' held, other⟩
  · intro field key' held
    rw [value_remove] at held
    split at held
    next => exact absurd rfl held
    next other => exact (mem_keys_remove _ _).mpr ⟨sound.noValue field key' held, other⟩

/-- **Deleting keeps the index consistent** exactly if the document has no tokens. -/
theorem consistent_remove (sound : Sound w) (consistent : Consistent A w.segment) {doc : IndexedDocument}
    (found : w.segment.storedDocuments.lookup key = some doc) :
    Consistent A (IndexWriter.remove key w.segment) ↔ docTokens A doc = 0 := by
  have sound' := sound.remove found
  have perm := perm_remove sound.distinct found
  have tokens : (IndexWriter.remove key w.segment).totalTokens = w.segment.totalTokens := rfl
  have total : (w.segment.storedDocuments.map fun e => docTokens A e.2).sum = docTokens A doc +
      ((IndexWriter.remove key w.segment).storedDocuments.map fun e => docTokens A e.2).sum := by
    rw [(perm.map fun e => docTokens A e.2).sum_nat, List.map_cons, List.sum_cons]
    rfl
  constructor
  · intro next
    have after := next.totalTokens
    have before := consistent.totalTokens
    omega
  · intro empty
    refine ⟨?_, ?_, ?_, sound'.docCount, sound'.noPosting, sound'.noLength, sound'.noValue⟩
    · intro e member field term
      obtain ⟨old, other⟩ := List.mem_filter.mp member
      rw [← consistent.postings e old field term, InMemorySegment.frequencies, InMemorySegment.frequencies,
        postings_remove, List.filter_filter]
      congr 1
      refine List.filter_congr fun p _ => ?_
      rw [decide_eq_true_eq] at other
      by_cases here : docKey p.docId = e.1
      · simp [here, other]
      · simp [here]
    · intro e member field
      obtain ⟨old, other⟩ := List.mem_filter.mp member
      rw [length_remove, if_neg (by simpa using other), consistent.lengths e old]
    · rw [tokens, consistent.totalTokens, total, empty, Nat.zero_add]

end Deleting

/-! ## Runs -/

/-- **Step.** Nothing ever refers to a document that is not stored. -/
theorem Sound.step {A : Analyzer} {w : IndexWriter} (sound : Sound w) (call : WriterCall) : Sound (w.step A call) := by
  cases call with
  | addDocument doc => exact sound.add doc
  | deleteDocument key =>
    cases found : w.segment.storedDocuments.lookup key with
    | none => rwa [delete_absent found]
    | some doc =>
      rw [delete_found found]
      exact sound.remove found

theorem consistent_step {A : Analyzer} {w : IndexWriter} (sound : Sound w) (consistent : Consistent A w.segment)
    (call : WriterCall) : Consistent A (w.step A call).segment ↔ Harmless A w call := by
  cases call with
  | addDocument doc => exact consistent_add sound consistent doc
  | deleteDocument key =>
    cases found : w.segment.storedDocuments.lookup key with
    | none =>
      rw [delete_absent found]
      refine iff_of_true consistent fun doc stored => ?_
      rw [found] at stored
      cases stored
    | some doc =>
      rw [delete_found found]
      refine (consistent_remove sound consistent found).trans ⟨fun empty doc' stored => ?_, fun all => all doc found⟩
      rw [found] at stored
      cases stored
      exact empty

/-- **The index is consistent** in every state of a run exactly if every added document has
tokens only in the last text field of each name, with no term `2 ^ 32` times, and every
document that is deleted has none. -/
theorem consistent_iff (A : Analyzer) (calls : List WriterCall) :
    (∀ w ∈ Run.states (IndexWriter.step A) .new calls, Consistent A w.segment) ↔
      Run.Each (IndexWriter.step A) (Harmless A) .new calls := by
  have keeps : ∀ w call, Sound w → Sound (IndexWriter.step A w call) := fun _ call sound => sound.step call
  have exactly : ∀ w call, Sound w → Consistent A w.segment →
      (Consistent A (IndexWriter.step A w call).segment ↔ Harmless A w call) :=
    fun _ call sound consistent => consistent_step sound consistent call
  exact Run.forall_states_iff keeps exactly sound_new (consistent_new A)

/-- Every text is one token. -/
def wholeText : Analyzer :=
  { nfc := id, analyze := fun text => [⟨text, 0, text.length, 0⟩], floatText := fun _ => [] }

/-- Two fields of one name have an entry each for a term of both. -/
theorem entry_doubled : ¬ ∀ (A : Analyzer) (calls : List WriterCall),
    ∀ w ∈ Run.states (IndexWriter.step A) .new calls, Consistent A w.segment := by
  intro all
  let doc : IndexedDocument := { id := ['d'], fields := [⟨['t'], .text ['a']⟩, ⟨['t'], .text ['a']⟩] }
  let last := IndexWriter.step wholeText .new (.addDocument doc)
  have consistent : Consistent wholeText last.segment := all wholeText [.addDocument doc] last (by simp [Run.states, last])
  have stored : last.segment.storedDocuments = [(['1'], doc)] := rfl
  have twice := consistent.postings (['1'], doc) (by rw [stored]; simp) ['t'] ['a']
  revert twice
  decide

/-! ## What the index has -/

/-- **The posting lists are the entries of the stored documents**, of every field and every term, and no others. -/
def Exact (A : Analyzer) (seg : InMemorySegment) : Prop :=
  ∀ field term p, p ∈ seg.postings field term ↔ ∃ doc, (docKey p.docId, doc) ∈ seg.storedDocuments ∧
    ∃ tokens ∈ fieldTokens A field doc.fields, entryOf p.docId term tokens = some p

theorem exact_add {A : Analyzer} {w : IndexWriter} (sound : Sound w) (exact : Exact A w.segment)
    (doc : IndexedDocument) : Exact A (w.step A (.addDocument doc)).segment := by
  intro field term p
  rw [sound.addDocument_eq]
  change p ∈ ((normalize A doc).fields.foldl (addField A w.nextDocId) w.segment).postings field term ↔
    ∃ d, (docKey p.docId, d) ∈ w.segment.storedDocuments ++ [(docKey w.nextDocId, normalize A doc)] ∧ _
  rw [postings_addFields, List.mem_append, List.mem_filterMap, exact field term p]
  constructor
  · rintro (⟨d, stored, entry⟩ | ⟨tokens, inDoc, isEntry⟩)
    · exact ⟨d, List.mem_append_left _ stored, entry⟩
    · have new := docId_of_entryOf isEntry
      exact ⟨normalize A doc, List.mem_append_right _ (by rw [new]; exact .head _), tokens, inDoc, new ▸ isEntry⟩
  · rintro ⟨d, member, tokens, inDoc, isEntry⟩
    rcases List.mem_append.mp member with stored | new
    · exact .inl ⟨d, stored, tokens, inDoc, isEntry⟩
    · obtain ⟨key, rfl⟩ := Prod.mk.inj (List.mem_singleton.mp new)
      exact .inr ⟨tokens, inDoc, docKey_injective key ▸ isEntry⟩

theorem exact_remove {A : Analyzer} {seg : InMemorySegment} (exact : Exact A seg) (key : Text) :
    Exact A (IndexWriter.remove key seg) := by
  intro field term p
  rw [postings_remove, List.mem_filter, exact field term p, decide_eq_true_eq]
  constructor
  · rintro ⟨⟨d, stored, entry⟩, other⟩
    exact ⟨d, List.mem_filter.mpr ⟨stored, decide_eq_true other⟩, entry⟩
  · rintro ⟨d, member, entry⟩
    obtain ⟨stored, other⟩ := List.mem_filter.mp member
    exact ⟨⟨d, stored, entry⟩, of_decide_eq_true other⟩

end NovaRuntime.Search
