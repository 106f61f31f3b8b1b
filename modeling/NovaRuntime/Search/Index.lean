/-
# NovaRuntime.Search.Index — the inverted index and its writer

`InMemorySegment` and `IndexWriter` of `nova_search::index`. A document gets a running number,
whose decimal text is its key. A text field is analysed and adds an entry to the posting list
of each of its terms; the other fields leave their text as a value. Deleting takes the key out
of everything but the count of tokens.

What the analysis does is not looked into: `Analyzer` gives the tokens of a text. A `HashMap`
of which only lookups are used is its lookup function, the one of the documents the list of
its entries. Neither the field types nor the boosts are read here, nor the number of the
segment. The counters are natural numbers: no run gets to `2 ^ 64` tokens.
-/
import Mathlib.Data.List.Induction
import Mathlib.Data.List.Nodup
import Mathlib.Logic.Function.Basic
import NovaRuntime.Library.F64
import NovaRuntime.Library.Outcome
import NovaRuntime.Library.Text
import NovaRuntime.Object.Types

namespace NovaRuntime.Search

open NovaRuntime.Library
open NovaRuntime.Object (insertEntry insertEntry_of_fresh)

set_option autoImplicit false

/-! ## Documents -/

inductive FieldValue where
  | text (text : Text)
  | integer (n : Int64)
  | float (f : F64)
  | bool (b : Bool)

structure IndexedField where
  name : Text
  value : FieldValue

structure IndexedDocument where
  id : Text
  fields : List IndexedField

structure Token where
  term : Text
  startOffset : Nat
  endOffset : Nat
  position : Nat

/-- What the index calls of others: normalization, the analyser, and the text of a float. -/
structure Analyzer where
  nfc : Text → Text
  analyze : Text → List Token
  floatText : F64 → Text

/-! ## The index -/

structure PostingEntry where
  docId : Nat
  termFrequency : Nat
  positions : List Nat

abbrev Lookup (K V : Type) := K → Option V

structure InMemorySegment where
  invertedIndex : Lookup (Text × Text) (List PostingEntry)
  storedDocuments : List (Text × IndexedDocument)
  docCount : Nat
  totalTokens : Nat
  fieldLengths : Lookup Text (Lookup Text Nat)
  fieldValues : Lookup Text (Lookup Text Text)

namespace InMemorySegment

def new : InMemorySegment :=
  { invertedIndex := fun _ => none, storedDocuments := [], docCount := 0, totalTokens := 0,
    fieldLengths := fun _ => none, fieldValues := fun _ => none }

/-- The posting list of a term, empty if there is none. -/
def postings (seg : InMemorySegment) (field term : Text) : List PostingEntry :=
  (seg.invertedIndex (field, term)).getD []

def length (seg : InMemorySegment) (field key : Text) : Option Nat :=
  (seg.fieldLengths field).bind fun lengths => lengths key

def value (seg : InMemorySegment) (field key : Text) : Option Text :=
  (seg.fieldValues field).bind fun values => values key

end InMemorySegment

/-! ## The writer -/

inductive SearchError where
  | indexNotFound (id : Text)
  deriving DecidableEq

structure IndexWriter where
  segment : InMemorySegment
  nextDocId : Nat

/-- A method of the writer. -/
abbrev Method (α : Type) := Exec SearchError IndexWriter α

/-- `doc_id.to_string()`. -/
def docKey (docId : Nat) : Text := Nat.toDigits 10 docId

/-- Text is normalized before it is stored. -/
def normalize (A : Analyzer) (doc : IndexedDocument) : IndexedDocument :=
  { doc with fields := doc.fields.map fun field =>
      match field.value with
      | .text text => { field with value := .text (A.nfc text) }
      | _ => field }

/-- `term_positions.entry(term).or_default().push(position)`. -/
def pushPosition (term : Text) (position : Nat) : List (Text × List Nat) → List (Text × List Nat)
  | [] => [(term, [position])]
  | e :: map =>
    if e.1 = term then (e.1, e.2 ++ [position]) :: map else e :: pushPosition term position map

/-- The terms of a field with their positions. -/
def termPositions (tokens : List Token) : List (Text × List Nat) :=
  tokens.foldl (fun map token => pushPosition token.term (token.position % 2 ^ 32) map) []

/-- An entry for one term of a field. -/
def pushPosting (docId : Nat) (field : Text) (seg : InMemorySegment) (e : Text × List Nat) : InMemorySegment :=
  let entry : PostingEntry := { docId, termFrequency := e.2.length % 2 ^ 32, positions := e.2 }
  { seg with
    invertedIndex := Function.update seg.invertedIndex (field, e.1) (some (seg.postings field e.1 ++ [entry])) }

/-- A value that is not analysed. -/
def setValue (docId : Nat) (field text : Text) (seg : InMemorySegment) : InMemorySegment :=
  let values := (seg.fieldValues field).getD fun _ => none
  { seg with
    fieldValues := Function.update seg.fieldValues field (some (Function.update values (docKey docId) (some text))) }

/-- The length of a text field. -/
def setLength (docId : Nat) (field : Text) (length : Nat) (seg : InMemorySegment) : InMemorySegment :=
  let lengths := (seg.fieldLengths field).getD fun _ => none
  { seg with
    fieldLengths :=
      Function.update seg.fieldLengths field (some (Function.update lengths (docKey docId) (some length)))
    totalTokens := seg.totalTokens + length }

/-- The loop over the fields of a document. The terms of a field are gone through in some
order; they have different posting lists. -/
def addField (A : Analyzer) (docId : Nat) (seg : InMemorySegment) (field : IndexedField) : InMemorySegment :=
  match field.value with
  | .text text =>
    let tokens := A.analyze text
    (termPositions tokens).foldl (pushPosting docId field.name)
      (setLength docId field.name tokens.length seg)
  | .integer n => setValue docId field.name (toString n.toInt).toList seg
  | .float f => setValue docId field.name (A.floatText f) seg
  | .bool b => setValue docId field.name (toString b).toList seg

namespace IndexWriter

def new : IndexWriter := { segment := .new, nextDocId := 1 }

def addDocument (A : Analyzer) (doc : IndexedDocument) : Method Unit :=
  Exec.modify fun w =>
    let doc := normalize A doc
    let seg := doc.fields.foldl (addField A w.nextDocId) w.segment
    { segment := { seg with
        storedDocuments := insertEntry (docKey w.nextDocId) doc seg.storedDocuments
        docCount := seg.docCount + 1 }
      nextDocId := w.nextDocId + 1 }

/-- Take a key out of the segment. The token count stays. -/
def remove (key : Text) (seg : InMemorySegment) : InMemorySegment :=
  { invertedIndex := fun entry => (seg.invertedIndex entry).bind fun postings =>
      let kept := postings.filter fun e => docKey e.docId ≠ key
      if kept.isEmpty then none else some kept
    storedDocuments := seg.storedDocuments.filter fun e => e.1 ≠ key
    docCount := seg.docCount - 1
    totalTokens := seg.totalTokens
    fieldLengths := fun field => (seg.fieldLengths field).map fun lengths => Function.update lengths key none
    fieldValues := fun field => (seg.fieldValues field).map fun values => Function.update values key none }

def deleteDocument (docId : Text) : Method Unit := do
  let w ← Exec.get
  match w.segment.storedDocuments.lookup docId with
  | none => Exec.lift (.err (.indexNotFound docId))
  | some _ => Exec.modify fun w => { w with segment := remove docId w.segment }

end IndexWriter

theorem docKey_injective : Function.Injective docKey := by
  intro m n same
  have back := congrArg (fun digits => Nat.ofDigitChars 10 digits 0) same
  simpa only [docKey, Nat.ofDigitChars_ten_toDigits] using back

/-! ## Positions -/

/-- The positions of a term. -/
def positionsOf (term : Text) (tokens : List Token) : List Nat :=
  (tokens.filter fun token => token.term = term).map fun token => token.position % 2 ^ 32

theorem lookup_cons_if {V : Type} (key key' : Text) (value : V) (map : List (Text × V)) :
    ((key', value) :: map).lookup key = if key = key' then some value else map.lookup key := by
  rw [lookup_cons_ite]
  simp only [beq_iff_eq]

theorem lookup_pushPosition (term : Text) (position : Nat) (map : List (Text × List Nat)) (term' : Text) :
    (pushPosition term position map).lookup term' =
      if term' = term then some ((map.lookup term).getD [] ++ [position]) else map.lookup term' := by
  induction map with
  | nil => rw [pushPosition, lookup_cons_if, List.lookup_nil, List.lookup_nil, Option.getD_none, List.nil_append]
  | cons e map ih =>
    obtain ⟨key, positions⟩ := e
    rw [pushPosition, lookup_cons_if, lookup_cons_if]
    by_cases here : key = term
    · subst here
      rw [if_pos rfl, lookup_cons_if, if_pos rfl, Option.getD_some]
      split
      next => rfl
      next => rfl
    · rw [if_neg here, lookup_cons_if, ih, if_neg (Ne.symm here)]
      by_cases same : term' = key
      · have differ : term' ≠ term := fun is => here (same.symm.trans is)
        rw [if_pos same, if_neg differ, if_pos same]
      · rw [if_neg same, if_neg same]

theorem mem_keys_pushPosition (term : Text) (position : Nat) (map : List (Text × List Nat)) (key : Text) :
    key ∈ (pushPosition term position map).map Prod.fst ↔ key = term ∨ key ∈ map.map Prod.fst := by
  induction map with
  | nil => simp [pushPosition]
  | cons e map ih =>
    rw [pushPosition]
    split
    next here =>
      rw [List.map_cons, List.map_cons, List.mem_cons, here, or_self_left]
    next =>
      rw [List.map_cons, List.map_cons, List.mem_cons, List.mem_cons, ih]
      tauto

theorem nodup_keys_pushPosition (term : Text) (position : Nat) {map : List (Text × List Nat)}
    (distinct : (map.map Prod.fst).Nodup) : ((pushPosition term position map).map Prod.fst).Nodup := by
  induction map with
  | nil => exact List.nodup_singleton term
  | cons e map ih =>
    obtain ⟨fresh, rest⟩ := List.nodup_cons.mp distinct
    rw [pushPosition]
    split
    next => exact distinct
    next other =>
      refine List.nodup_cons.mpr ⟨fun member => ?_, ih rest⟩
      rcases (mem_keys_pushPosition term position map e.1).mp member with same | inMap
      · exact other same
      · exact fresh inMap

/-- **The positions of each term** are collected under it. -/
theorem termPositions_spec (tokens : List Token) :
    ((termPositions tokens).map Prod.fst).Nodup ∧ ∀ term, (termPositions tokens).lookup term =
      if positionsOf term tokens = [] then none else some (positionsOf term tokens) := by
  induction tokens using List.reverseRecOn with
  | nil => exact ⟨List.nodup_nil, fun _ => rfl⟩
  | append_singleton tokens token ih =>
    have unfolded : termPositions (tokens ++ [token]) =
        pushPosition token.term (token.position % 2 ^ 32) (termPositions tokens) := by
      rw [termPositions, List.foldl_append]
      rfl
    rw [unfolded]
    refine ⟨nodup_keys_pushPosition _ _ ih.1, fun term => ?_⟩
    rw [lookup_pushPosition, ih.2, ih.2]
    have grown : positionsOf term (tokens ++ [token]) =
        positionsOf term tokens ++ if term = token.term then [token.position % 2 ^ 32] else [] := by
      rw [positionsOf, positionsOf, List.filter_append, List.map_append]
      by_cases here : term = token.term
      · simp [here]
      · simp [here, Ne.symm here]
    rw [grown]
    by_cases here : term = token.term
    · subst here
      have some : positionsOf token.term tokens ++ [token.position % 2 ^ 32] ≠ [] := by simp
      rw [if_pos rfl, if_pos rfl, if_neg some]
      split
      next none => rw [none, Option.getD_none]
      next => rw [Option.getD_some]
    · rw [if_neg here, if_neg here, List.append_nil]

/-! ## What the writer does to lookups -/

section Lookups

variable (docId : Nat) (name : Text) (seg : InMemorySegment)

/-- The entry of a field for a term. -/
def entryOf (term : Text) (tokens : List Token) : Option PostingEntry :=
  let positions := positionsOf term tokens
  if positions = [] then none else some { docId, termFrequency := positions.length % 2 ^ 32, positions }

theorem postings_pushPosting (e : Text × List Nat) (field term : Text) :
    (pushPosting docId name seg e).postings field term = seg.postings field term ++
      if field = name ∧ term = e.1 then [⟨docId, e.2.length % 2 ^ 32, e.2⟩] else [] := by
  simp only [pushPosting, InMemorySegment.postings]
  by_cases here : field = name ∧ term = e.1
  · obtain ⟨rfl, rfl⟩ := here
    rw [Function.update_self, Option.getD_some, if_pos ⟨rfl, rfl⟩]
  · have other : (field, term) ≠ (name, e.1) := fun same => here (Prod.mk.inj same)
    rw [Function.update_of_ne other, if_neg here, List.append_nil]

/-- The posting lists after all terms of a field. -/
theorem postings_foldl {map : List (Text × List Nat)} (distinct : (map.map Prod.fst).Nodup)
    (field term : Text) :
    (map.foldl (pushPosting docId name) seg).postings field term = seg.postings field term ++
      if field = name then ((map.lookup term).map fun positions =>
        (⟨docId, positions.length % 2 ^ 32, positions⟩ : PostingEntry)).toList else [] := by
  induction map generalizing seg with
  | nil => simp
  | cons e map ih =>
    obtain ⟨key, positions⟩ := e
    obtain ⟨fresh, rest⟩ := List.nodup_cons.mp distinct
    rw [List.foldl_cons, ih _ rest, postings_pushPosting, List.append_assoc, lookup_cons_if]
    congr 1
    by_cases inField : field = name
    · rw [if_pos inField, if_pos inField]
      by_cases here : term = key
      · have none : map.lookup term = none := List.lookup_eq_none_iff.mpr fun e member => by
          rw [bne_iff_ne]
          rintro rfl
          exact fresh (List.mem_map.mpr ⟨e, member, here⟩)
        rw [if_pos ⟨inField, here⟩, if_pos here, none]
        rfl
      · rw [if_neg fun both => here both.2, if_neg here, List.nil_append]
    · rw [if_neg inField, if_neg inField, if_neg fun both => inField both.1, List.nil_append]

/-- Terms change posting lists and nothing else. -/
theorem foldl_pushPosting (map : List (Text × List Nat)) :
    map.foldl (pushPosting docId name) seg =
      { seg with invertedIndex := (map.foldl (pushPosting docId name) seg).invertedIndex } := by
  induction map generalizing seg with
  | nil => rfl
  | cons e map ih => rw [List.foldl_cons, ih]; rfl

/-- A value put into a table of a field. -/
theorem bind_update {α : Type} (tables : Text → Option (Text → Option α)) (key : Text) (v : α) (field key' : Text) :
    ((Function.update tables name (some (Function.update ((tables name).getD fun _ => none) key (some v)))) field).bind
        (fun table => table key') =
      if field = name ∧ key' = key then some v else (tables field).bind fun table => table key' := by
  by_cases inField : field = name
  · subst inField
    rw [Function.update_self, Option.bind_some]
    by_cases here : key' = key
    · rw [here, Function.update_self, if_pos ⟨rfl, rfl⟩]
    · rw [Function.update_of_ne here, if_neg fun both => here both.2]
      cases tables field <;> rfl
  · rw [Function.update_of_ne inField, if_neg fun both => inField both.1]

theorem length_setLength (length : Nat) (field key : Text) :
    (setLength docId name length seg).length field key =
      if field = name ∧ key = docKey docId then some length else seg.length field key :=
  bind_update name seg.fieldLengths (docKey docId) length field key

theorem value_setValue (text field key : Text) :
    (setValue docId name text seg).value field key =
      if field = name ∧ key = docKey docId then some text else seg.value field key :=
  bind_update name seg.fieldValues (docKey docId) text field key

end Lookups

/-- The tokens of a field, if it is a text field of that name. -/
def tokensIn (A : Analyzer) (name : Text) (field : IndexedField) : Option (List Token) :=
  match field.value with
  | .text text => if field.name = name then some (A.analyze text) else none
  | _ => none

/-- How many tokens a field has. -/
def tokenCount (A : Analyzer) (field : IndexedField) : Nat :=
  match field.value with
  | .text text => (A.analyze text).length
  | _ => 0

section Fields

variable {A : Analyzer} {docId : Nat} {seg : InMemorySegment}

/-- **What one field adds** to the posting lists. -/
theorem postings_addField (field : IndexedField) (name term : Text) :
    (addField A docId seg field).postings name term =
      seg.postings name term ++ ((tokensIn A name field).bind (entryOf docId term)).toList := by
  obtain ⟨fieldName, value⟩ := field
  cases value with
  | text text =>
    have spec := termPositions_spec (A.analyze text)
    have same : (setLength docId fieldName (A.analyze text).length seg).postings name term =
        seg.postings name term := rfl
    simp only [addField, tokensIn]
    rw [postings_foldl _ _ _ spec.1, spec.2, same]
    congr 1
    by_cases here : name = fieldName
    · rw [if_pos here, if_pos here.symm, Option.bind_some, entryOf]
      by_cases absent : positionsOf term (A.analyze text) = []
      · simp only [absent, if_true, Option.map_none]
      · simp only [absent, if_false, Option.map_some]
    · rw [if_neg here, if_neg (Ne.symm here), Option.bind_none, Option.toList_none]
  | _ => exact (List.append_nil _).symm

theorem length_addField (field : IndexedField) (name key : Text) :
    (addField A docId seg field).length name key =
      if key = docKey docId then ((tokensIn A name field).map List.length).or (seg.length name key)
      else seg.length name key := by
  obtain ⟨fieldName, value⟩ := field
  cases value with
  | text text =>
    simp only [addField, tokensIn]
    rw [foldl_pushPosting]
    have same := length_setLength docId fieldName seg (A.analyze text).length name key
    refine Eq.trans same ?_
    by_cases here : key = docKey docId
    · by_cases inField : name = fieldName
      · rw [if_pos ⟨inField, here⟩, if_pos here, if_pos inField.symm]
        rfl
      · rw [if_neg fun both => inField both.1, if_pos here, if_neg (Ne.symm inField)]
        rfl
    · rw [if_neg fun both => here both.2, if_neg here]
  | _ => exact (ite_self _).symm

/-- A field leaves values of its document only. -/
theorem value_addField (field : IndexedField) {name key : Text} (other : key ≠ docKey docId) :
    (addField A docId seg field).value name key = seg.value name key := by
  obtain ⟨fieldName, value⟩ := field
  cases value with
  | text text =>
    simp only [addField]
    rw [foldl_pushPosting]
    rfl
  | _ => exact (value_setValue ..).trans (if_neg fun both => other both.2)

variable (A docId seg) in
theorem counts_addField (field : IndexedField) :
    (addField A docId seg field).totalTokens = seg.totalTokens + tokenCount A field ∧
      (addField A docId seg field).storedDocuments = seg.storedDocuments ∧
      (addField A docId seg field).docCount = seg.docCount := by
  obtain ⟨fieldName, value⟩ := field
  cases value with
  | text text =>
    simp only [addField]
    rw [foldl_pushPosting]
    exact ⟨rfl, rfl, rfl⟩
  | _ => exact ⟨rfl, rfl, rfl⟩

/-- The tokens of the text fields of one name. -/
def fieldTokens (A : Analyzer) (name : Text) (fields : List IndexedField) : List (List Token) :=
  fields.filterMap (tokensIn A name)

/-- **What a document adds** to the posting lists: an entry for each of its fields that has
the term. -/
theorem postings_addFields (fields : List IndexedField) (name term : Text) :
    (fields.foldl (addField A docId) seg).postings name term =
      seg.postings name term ++ (fieldTokens A name fields).filterMap (entryOf docId term) := by
  induction fields generalizing seg with
  | nil => exact (List.append_nil _).symm
  | cons field fields ih =>
    rw [List.foldl_cons, ih, postings_addField, List.append_assoc, fieldTokens, fieldTokens,
      List.filterMap_cons]
    cases tokensIn A name field with
    | none => rfl
    | some tokens =>
      rw [Option.bind_some, List.filterMap_cons]
      cases entryOf docId term tokens <;> rfl

/-- The length that stays is that of the last field of the name. -/
theorem length_addFields (fields : List IndexedField) (name key : Text) :
    (fields.foldl (addField A docId) seg).length name key =
      if key = docKey docId then
        (((fieldTokens A name fields).map List.length).getLast?).or (seg.length name key)
      else seg.length name key := by
  induction fields generalizing seg with
  | nil => exact (ite_self _).symm
  | cons field fields ih =>
    rw [List.foldl_cons, ih, length_addField, fieldTokens, fieldTokens, List.filterMap_cons]
    by_cases here : key = docKey docId
    · simp only [if_pos here]
      cases tokensIn A name field with
      | none => rfl
      | some tokens =>
        rw [Option.map_some, List.map_cons, List.getLast?_cons, Option.some_or]
        cases ((fields.filterMap (tokensIn A name)).map List.length).getLast? <;> rfl
    · simp only [if_neg here]

theorem value_addFields (fields : List IndexedField) {name key : Text} (other : key ≠ docKey docId) :
    (fields.foldl (addField A docId) seg).value name key = seg.value name key := by
  induction fields generalizing seg with
  | nil => rfl
  | cons field fields ih => rw [List.foldl_cons, ih, value_addField field other]

/-- How many tokens a document has. -/
def docTokens (A : Analyzer) (doc : IndexedDocument) : Nat := (doc.fields.map (tokenCount A)).sum

variable (A docId seg) in
theorem counts_addFields (fields : List IndexedField) :
    (fields.foldl (addField A docId) seg).totalTokens = seg.totalTokens + (fields.map (tokenCount A)).sum ∧
      (fields.foldl (addField A docId) seg).storedDocuments = seg.storedDocuments ∧
      (fields.foldl (addField A docId) seg).docCount = seg.docCount := by
  induction fields generalizing seg with
  | nil => exact ⟨rfl, rfl, rfl⟩
  | cons field fields ih =>
    obtain ⟨tokens, stored, count⟩ := counts_addField A docId seg field
    obtain ⟨tokens', stored', count'⟩ := ih (addField A docId seg field)
    rw [List.foldl_cons]
    refine ⟨?_, stored'.trans stored, count'.trans count⟩
    rw [tokens', tokens, List.map_cons, List.sum_cons, Nat.add_assoc]

end Fields

section Removal

variable (key : Text) (seg : InMemorySegment)

theorem postings_remove (field term : Text) : (IndexWriter.remove key seg).postings field term =
    (seg.postings field term).filter fun e => docKey e.docId ≠ key := by
  simp only [IndexWriter.remove, InMemorySegment.postings]
  cases seg.invertedIndex (field, term) with
  | none => rfl
  | some postings =>
    rw [Option.bind_some, Option.getD_some]
    split
    next empty => rw [Option.getD_none, List.isEmpty_iff.mp empty]
    next => rfl

theorem bind_forget {α : Type} (table : Option (Text → Option α)) (key' : Text) :
    ((table.map fun values => Function.update values key none).bind fun values => values key') =
      if key' = key then none else table.bind fun values => values key' := by
  cases table with
  | none => exact (ite_self _).symm
  | some values =>
    rw [Option.map_some, Option.bind_some, Option.bind_some]
    by_cases here : key' = key
    · rw [here, Function.update_self, if_pos rfl]
    · rw [Function.update_of_ne here, if_neg here]

theorem length_remove (field key' : Text) : (IndexWriter.remove key seg).length field key' =
    if key' = key then none else seg.length field key' := bind_forget key _ key'

theorem value_remove (field key' : Text) : (IndexWriter.remove key seg).value field key' =
    if key' = key then none else seg.value field key' := bind_forget key _ key'

end Removal

end NovaRuntime.Search
