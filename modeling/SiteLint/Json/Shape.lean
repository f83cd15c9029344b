import SiteLint.Json.Reader
import SiteLint.Record

/-!
Reading records out of JSON values.

A record is written as an object, or as an array that lists its fields in a fixed order. In an
object, unknown names are skipped whatever they hold, and a known name may stand once. A value
that is kept whole, instead of being read field by field, has to be sound all through: texts are
texts, numbers are within range, and it is not nested too deep.
-/

namespace SiteLint.Json

/-- Arrays and objects may be nested this deep in a value that is kept whole. -/
def depthLimit : Nat := 127

mutual

/-- The value with each repeated name of an object given once: in its first place, with its last
value. Nothing if the value is not sound. `depth` more levels may be opened. -/
def sound? (depth : Nat) : Json → Option Json
  | null => some null
  | bool b => some (bool b)
  | num n => if n.overflows then none else some (num n)
  | str (some s) => some (text s)
  | str none => none
  | arr items => if depth = 0 then none else (soundItems? (depth - 1) items).map arr
  | obj members => if depth = 0 then none else (soundMembers? (depth - 1) members).map obj

def soundItems? (depth : Nat) : List Json → Option (List Json)
  | [] => some []
  | v :: vs => do some ((← sound? depth v) :: (← soundItems? depth vs))

def soundMembers? (depth : Nat) : List (Key × Json) → Option (List (Key × Json))
  | [] => some []
  | (k, v) :: ms => do
    let name ← k
    let v ← sound? depth v
    let ms ← soundMembers? depth ms
    match ms.find? (·.1 = some name) with
    | some later => some ((some name, later.2) :: ms.filter (·.1 ≠ some name))
    | none => some ((some name, v) :: ms)

end

/-- The text of a string. -/
def text? : Json → Option String
  | str (some s) => some s
  | _ => none

/-- A count below `Text.countBound`. -/
def count? : Json → Option Nat
  | num n => n.count?
  | _ => none

def flag? : Json → Option Bool
  | bool b => some b
  | _ => none

def items? : Json → Option (List Json)
  | arr items => some items
  | _ => none

/-- Null stands for no value. -/
def optional? {α : Type} (read : Json → Option α) : Json → Option (Option α)
  | null => some none
  | v => (read v).map some

/-- Every item of an array. -/
def listOf? {α : Type} (read : Json → Option α) (v : Json) : Option (List α) :=
  v.items?.bind fun items => items.mapM read

/-- The members of an object under their names. -/
def members? : Json → Option (Record Json)
  | obj ms => ms.mapM fun (k, v) => k.map (·, v)
  | _ => none

/-- A record given as named fields: those of an object, or the items of an array in the order of
`fields`, which may not be more. -/
def fields? (fields : List String) : Json → Option (Record Json)
  | arr items => if items.length ≤ fields.length then some (fields.zip items) else none
  | v => v.members?

/-- A field that must be there. -/
def required? {α : Type} (name : String) (read : Json → Option α) (ms : Record Json) :
    Option α := do
  match ← Record.field? [name] ms with
  | some v => read v
  | none => none

/-- A field with a value for when it is absent. -/
def withDefault? {α : Type} (name : String) (default : α) (read : Json → Option α)
    (ms : Record Json) : Option α := do
  match ← Record.field? [name] ms with
  | some v => read v
  | none => some default

end SiteLint.Json
