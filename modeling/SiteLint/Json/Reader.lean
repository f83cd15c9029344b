import SiteLint.Json.Token

/-!
JSON values from tokens, in one pass.

The state holds the arrays and objects that are open, innermost first, each with what it has so
far in reverse. Nothing depends on how deep they are nested.
-/

namespace SiteLint.Json

abbrev Key := Option String

/-- An open array or object that waits for a value. -/
inductive Frame
  | array (items : List Json)
  | object (members : List (Key × Json)) (key : Key)

/-- What may come next. -/
inductive State
  /-- A value. -/
  | value (stack : List Frame)
  /-- A value or the end of the array just opened. -/
  | firstItem (stack : List Frame)
  /-- A name or the end of the object just opened. -/
  | firstKey (stack : List Frame)
  /-- A name. -/
  | key (members : List (Key × Json)) (stack : List Frame)
  /-- The colon after a name. -/
  | colon (members : List (Key × Json)) (key : Key) (stack : List Frame)
  /-- A comma or the end of the array. -/
  | afterItem (items : List Json) (stack : List Frame)
  /-- A comma or the end of the object. -/
  | afterMember (members : List (Key × Json)) (stack : List Frame)
  /-- Nothing: the document is complete. -/
  | done (v : Json)

namespace State

/-- A value is complete. -/
def complete (v : Json) : List Frame → State
  | [] => done v
  | Frame.array items :: stack => afterItem (v :: items) stack
  | Frame.object members k :: stack => afterMember ((k, v) :: members) stack

/-- The first token of a value. -/
def begin? (stack : List Frame) : Token → Option State
  | .openArray => some (firstItem stack)
  | .openObject => some (firstKey stack)
  | .null => some (complete Json.null stack)
  | .bool b => some (complete (Json.bool b) stack)
  | .num n => some (complete (Json.num n) stack)
  | .str t => some (complete (Json.str t) stack)
  | _ => none

def step : State → Token → Option State
  | value stack, t => begin? stack t
  | firstItem stack, .closeArray => some (complete (Json.arr []) stack)
  | firstItem stack, t => begin? (Frame.array [] :: stack) t
  | firstKey stack, .closeObject => some (complete (Json.obj []) stack)
  | firstKey stack, .str k => some (colon [] k stack)
  | key ms stack, .str k => some (colon ms k stack)
  | colon ms k stack, .colon => some (value (Frame.object ms k :: stack))
  | afterItem is stack, .comma => some (value (Frame.array is :: stack))
  | afterItem is stack, .closeArray => some (complete (Json.arr is.reverse) stack)
  | afterMember ms stack, .comma => some (key ms stack)
  | afterMember ms stack, .closeObject => some (complete (Json.obj ms.reverse) stack)
  | _, _ => none

end State

/-- The value that tokens write. -/
def ofTokens? (ts : List Token) : Option Json :=
  match ts.foldlM State.step (State.value []) with
  | some (State.done v) => some v
  | _ => none

/-- The value that a text writes. -/
def read? (cs : List Char) : Option Json := (tokens? cs).bind ofTokens?

end SiteLint.Json
