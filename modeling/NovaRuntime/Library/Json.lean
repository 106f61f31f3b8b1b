/-
# NovaRuntime.Library.Json — JSON documents as trees

A document is its tree; the text it is written as is left to the program that uses it.
Objects keep their members in the order they were written in. A member is read by its
name (`Json.member`), and not at all where the name stands twice.
-/
import NovaRuntime.Library.F64
import NovaRuntime.Library.Text

namespace NovaRuntime.Library

set_option autoImplicit false

inductive Json where
  | null
  | bool (b : Bool)
  | int (n : Int)
  | float (f : F64)
  | str (t : Text)
  | arr (items : List Json)
  | obj (members : List (String × Json))

namespace Json

/-- The member of a name, where it is the only one. -/
def member (name : String) : Json → Option Json
  | .obj members =>
    match members.filter fun m => m.1 == name with
    | [m] => some m.2
    | _ => none
  | _ => none

/-- The items of an array, each read by `read`. -/
def items {α : Type} (read : Json → Option α) : Json → Option (List α)
  | .arr items => items.mapM read
  | _ => none

def asText : Json → Option Text
  | .str t => some t
  | _ => none

def asBool : Json → Option Bool
  | .bool b => some b
  | _ => none

/-- A string between quotes; control characters are escaped. -/
def quoted (t : Text) : Text :=
  '"' :: t.flatMap (fun c =>
    if c = '"' ∨ c = '\\' then ['\\', c]
    else if c = '\n' then ['\\', 'n']
    else if c = '\t' then ['\\', 't']
    else if c = '\r' then ['\\', 'r']
    else if c.toNat = 8 then ['\\', 'b']
    else if c.toNat = 12 then ['\\', 'f']
    else if c.toNat < 32 then
      ['\\', 'u', '0', '0', Nat.digitChar (c.toNat / 16), Nat.digitChar (c.toNat % 16)]
    else [c]) ++ ['"']

/-- Items with commas between them. -/
def commas : List Text → Text
  | [] => []
  | [t] => t
  | t :: ts => t ++ ',' :: commas ts

mutual

/-- The compact text of a document, without blanks. -/
def text (floatText : F64 → Text) : Json → Text
  | .null => "null".toList
  | .bool b => (if b then "true" else "false").toList
  | .int n => (toString n).toList
  | .float f => floatText f
  | .str t => quoted t
  | .arr items => '[' :: commas (itemTexts floatText items) ++ [']']
  | .obj members => '\x7b' :: commas (memberTexts floatText members) ++ ['\x7d']

def itemTexts (floatText : F64 → Text) : List Json → List Text
  | [] => []
  | item :: items => text floatText item :: itemTexts floatText items

def memberText (floatText : F64 → Text) : String × Json → Text
  | (name, value) => quoted name.toList ++ ':' :: text floatText value

def memberTexts (floatText : F64 → Text) : List (String × Json) → List Text
  | [] => []
  | m :: members => memberText floatText m :: memberTexts floatText members

end

example : text (fun _ => []) (.obj [("a", .arr [.int 1, .null])]) =
    "\x7b\"a\":[1,null]\x7d".toList := by decide +kernel

/-- An unsigned number. -/
def asNat : Json → Option Nat
  | .int (.ofNat n) => some n
  | _ => none

variable {α : Type}

/-- **An array that was written item by item is read item by item.** -/
theorem items_map {read : Json → Option α} {write : α → Json} {xs : List α}
    (back : ∀ x ∈ xs, read (write x) = some x) : items read (.arr (xs.map write)) = some xs := by
  rw [items]
  induction xs with
  | nil => rfl
  | cons x xs ih =>
    have first := back x (.head _)
    have rest := ih fun y member => back y (List.mem_cons_of_mem x member)
    rw [List.map_cons, List.mapM_cons, first, rest]
    rfl

end Json

end NovaRuntime.Library
