/-
# NovaRuntime.Object.Document — fields of a document by dotted paths

`Document::get_field`, `set_field` and `remove_field` of `nova_object::document`, with the
data and the time of the last change; nothing here reads the rest of the metadata. The
loops of the source move a reference into the data and write at most once, at the end; here
a descent gives the changed data back. `objects` is what the three have in common: maps
whose object values are maps again (`Library.Nested`). A `Value::Map` is not descended into.
-/
import NovaRuntime.Library.Nested
import NovaRuntime.Object.Types

namespace NovaRuntime.Object

open NovaRuntime.Library

set_option autoImplicit false

/-- The variants of `RuntimeError` that documents and the registry of schemas build. -/
inductive ArgumentError where
  | invalidArgument (message : Text)
  | notFound (message : Text)
  | alreadyExists (message : Text)
  deriving DecidableEq

/-- `HashMap::remove`. -/
def eraseEntry {V : Type} (key : Text) (map : List (Text × V)) : List (Text × V) :=
  map.filter fun e => e.1 ≠ key

structure Document where
  data : List (Text × Value)
  updatedAt : Nat

def Value.asObject : Value → Option (List (Text × Value))
  | .object entries => some entries
  | _ => none

namespace Document

/-- `path.split('.')`. -/
def parts (path : Text) : List Text := path.splitOn '.'

/-- The loop of `get_field`. -/
def descend : Option Value → List Text → Option Value
  | current, [] => current
  | some (.object map), part :: rest => descend (map.lookup part) rest
  | _, _ :: _ => none

def getField (doc : Document) (path : Text) : Option Value :=
  match parts path with
  | [] => none
  | part :: rest => descend (doc.data.lookup part) rest

/-- The descent of `set_field` and its write. -/
def setParts (value : Value) : List Text → List (Text × Value) → Except ArgumentError (List (Text × Value))
  | [], _ => .error (.invalidArgument "empty path".toList)
  | [key], current => .ok (insertEntry key value current)
  | key :: next :: rest, current =>
    match current.lookup key with
    | some (.object map) =>
      (setParts value (next :: rest) map).map fun map => insertEntry key (.object map) current
    | some _ => .error (.invalidArgument
        ("cannot descend into non-object field '".toList ++ key ++ "'".toList))
    | none => .error (.invalidArgument
        ("intermediate field '".toList ++ key ++ "' does not exist".toList))

def setField (now : Nat) (path : Text) (value : Value) : Exec ArgumentError Document Unit := fun doc =>
  match setParts value (parts path) doc.data with
  | .ok data => (.ok (), { doc with data, updatedAt := now })
  | .error e => (.err e, doc)

/-- The descent of `remove_field` and its removal. -/
def removeParts : List Text → List (Text × Value) → Option (List (Text × Value))
  | [], _ => none
  | [key], current => if (current.lookup key).isSome then some (eraseEntry key current) else none
  | key :: next :: rest, current =>
    match current.lookup key with
    | some (.object map) =>
      (removeParts (next :: rest) map).map fun map => insertEntry key (.object map) current
    | _ => none

def removeField (now : Nat) (path : Text) (doc : Document) : Bool × Document :=
  match removeParts (parts path) doc.data with
  | some data => (true, { doc with data, updatedAt := now })
  | none => (false, doc)

/-! ## Objects in objects -/

theorem lookup_insertEntry (key key' : Text) (value : Value) (map : List (Text × Value)) :
    (insertEntry key value map).lookup key' = if key' = key then some value else map.lookup key' := by
  induction map with
  | nil => simp [insertEntry, lookup_cons_ite]
  | cons e map ih =>
    obtain ⟨first, held⟩ := e
    rw [insertEntry]
    by_cases here : first = key
    · rw [if_pos here]
      simp only [lookup_cons_ite, beq_iff_eq, here]
      split <;> rfl
    · rw [if_neg here]
      simp only [lookup_cons_ite, beq_iff_eq, ih]
      by_cases found : key' = first
      · rw [if_pos found, if_neg (found ▸ here), if_pos found]
      · rw [if_neg found, if_neg found]

theorem lookup_eraseEntry (key key' : Text) (map : List (Text × Value)) :
    (eraseEntry key map).lookup key' = if key' = key then none else map.lookup key' := by
  induction map with
  | nil => simp [eraseEntry]
  | cons e map ih =>
    obtain ⟨first, held⟩ := e
    rw [eraseEntry, List.filter_cons]
    by_cases here : first = key
    · rw [if_neg (by simpa using here), ← eraseEntry, ih]
      simp only [lookup_cons_ite, beq_iff_eq, here]
      split <;> rfl
    · rw [if_pos (by simpa using here), ← eraseEntry]
      simp only [lookup_cons_ite, beq_iff_eq, ih]
      by_cases found : key' = first
      · rw [if_pos found, if_neg (found ▸ here), if_pos found]
      · rw [if_neg found, if_neg found]

def objects : Nesting Text Value (List (Text × Value)) where
  get key map := map.lookup key
  insert := insertEntry
  erase := eraseEntry
  view := Value.asObject
  build := .object
  get_insert := lookup_insertEntry
  get_erase := lookup_eraseEntry
  view_build _ := rfl

theorem descend_eq (part : Text) (rest : List Text) (map : List (Text × Value)) :
    descend (map.lookup part) rest = objects.read (part :: rest) map := by
  induction rest generalizing part map with
  | nil =>
    show descend (map.lookup part) [] = map.lookup part
    cases map.lookup part <;> rfl
  | cons next rest ih =>
    show descend (map.lookup part) (next :: rest) =
      ((map.lookup part).bind Value.asObject).bind fun inner => objects.read (next :: rest) inner
    rcases map.lookup part with _ | value
    · rfl
    · cases value with
      | object inner => exact ih next inner
      | _ => rfl

/-- **`get_field` reads along the path.** -/
theorem getField_eq (doc : Document) (path : Text) : doc.getField path = objects.read (parts path) doc.data := by
  rw [getField]
  rcases parts path with _ | ⟨part, rest⟩
  · rfl
  · exact descend_eq part rest doc.data

/-- **`set_field` writes along the path**, where it does not fail. -/
theorem write_of_setParts {value : Value} {path : List Text} {map map' : List (Text × Value)}
    (wrote : setParts value path map = .ok map') : objects.write value path map = .ok map' := by
  induction path generalizing map map' with
  | nil => cases wrote
  | cons key rest ih =>
    cases rest with
    | nil =>
      cases wrote
      rfl
    | cons next rest =>
      rw [setParts] at wrote
      split at wrote
      next inner found =>
        rcases below : setParts value (next :: rest) inner with e | inner'
        · rw [below] at wrote
          cases wrote
        · rw [below] at wrote
          cases wrote
          refine Nesting.write_cons_eq_ok.mpr ⟨inner, inner', ?_, ih below, rfl⟩
          show (map.lookup key).bind Value.asObject = some inner
          rw [found]
          rfl
      · cases wrote
      · cases wrote

/-- **`remove_field` removes along the path.** -/
theorem removeParts_eq (path : List Text) (map : List (Text × Value)) :
    removeParts path map = objects.remove path map := by
  induction path generalizing map with
  | nil => rfl
  | cons key rest ih =>
    cases rest with
    | nil => rfl
    | cons next rest =>
      show removeParts (key :: next :: rest) map = ((map.lookup key).bind Value.asObject).bind
        fun inner => (objects.remove (next :: rest) inner).map
          fun inner => insertEntry key (.object inner) map
      rw [removeParts]
      rcases map.lookup key with _ | found
      · rfl
      · cases found with
        | object inner =>
          show (removeParts (next :: rest) inner).map _ = (objects.remove (next :: rest) inner).map _
          rw [ih]
        | _ => rfl

/-! ## Lens laws -/

/-- Neither path begins the other. -/
def ApartPaths (p q : Text) : Prop := Nesting.Apart (parts p) (parts q)

/-- What a write does to the fields of a document. -/
structure SetLaws (now : Nat) (p : Text) (value : Value) (doc : Document) : Prop where
  reads : (setField now p value doc).1 = .ok () →
    (setField now p value doc).2.getField p = some value
  apart : (setField now p value doc).1 = .ok () →
    ∀ q, ApartPaths p q → (setField now p value doc).2.getField q = doc.getField q
  fails : (setField now p value doc).1 ≠ .ok () → (setField now p value doc).2.data = doc.data

/-- What a removal does to the fields of a document. -/
structure RemoveLaws (now : Nat) (p : Text) (doc : Document) : Prop where
  present : (removeField now p doc).1 = true ↔ ∃ value, doc.getField p = some value
  gone : (removeField now p doc).1 = true → (removeField now p doc).2.getField p = none
  apart : (removeField now p doc).1 = true →
    ∀ q, ApartPaths p q → (removeField now p doc).2.getField q = doc.getField q

theorem setLaws (now : Nat) (p : Text) (value : Value) (doc : Document) : SetLaws now p value doc := by
  rcases wrote : setParts value (parts p) doc.data with e | data
  · have failed : setField now p value doc = (.err e, doc) := by rw [setField, wrote]
    have notOk : (setField now p value doc).1 ≠ .ok () := by
      rw [failed]
      nofun
    exact ⟨fun ok => absurd ok notOk, fun ok => absurd ok notOk, fun _ => by rw [failed]⟩
  · have done : setField now p value doc = (.ok (), { doc with data, updatedAt := now }) := by
      rw [setField, wrote]
    refine ⟨fun _ => ?_, fun _ q apart => ?_, fun notOk => absurd (by rw [done]) notOk⟩
    · rw [done, getField_eq]
      exact Nesting.read_write (write_of_setParts wrote)
    · rw [done, getField_eq, getField_eq]
      exact Nesting.read_write_apart (write_of_setParts wrote) apart

theorem removeLaws (now : Nat) (p : Text) (doc : Document) : RemoveLaws now p doc := by
  have held : (objects.remove (parts p) doc.data).isSome = (doc.getField p).isSome := by
    rw [getField_eq]
    exact Nesting.remove_isSome
  rcases removed : objects.remove (parts p) doc.data with _ | data
  · have nothing : removeField now p doc = (false, doc) := by rw [removeField, removeParts_eq, removed]
    have notDone : (removeField now p doc).1 ≠ true := by
      rw [nothing]
      nofun
    rw [removed] at held
    refine ⟨?_, fun done => absurd done notDone, fun done => absurd done notDone⟩
    rw [nothing, ← Option.isSome_iff_exists, ← held]
    exact iff_of_false nofun nofun
  · have done : removeField now p doc = (true, { doc with data, updatedAt := now }) := by
      rw [removeField, removeParts_eq, removed]
    rw [removed] at held
    refine ⟨?_, fun _ => ?_, fun _ q apart => ?_⟩
    · rw [done, ← Option.isSome_iff_exists, ← held]
      exact iff_of_true rfl rfl
    · rw [done, getField_eq]
      exact Nesting.read_remove removed
    · rw [done, getField_eq, getField_eq]
      exact Nesting.read_remove_apart removed apart

/-- **Paths obey the laws of a lens**: a write is read back, a removal leaves nothing, neither
is seen from apart, and what fails changes nothing. -/
theorem lens_laws (now : Nat) (doc : Document) (p : Text) (value : Value) :
    SetLaws now p value doc ∧ RemoveLaws now p doc :=
  ⟨setLaws now p value doc, removeLaws now p doc⟩

example : (getField ⟨[("a".toList, .object [("b".toList, .int8 1)])], 0⟩ "a.b".toList).isSome = true := by
  decide

end Document

end NovaRuntime.Object
