/-!
YAML documents as values.

A reference to a named node stands for that node. A reference from inside the node that it names
has no end; it is kept as a node of its own, which no reader accepts.
-/

namespace SiteLint

namespace Yaml

/-- How the text of a scalar is written. -/
inductive Style
  | plain
  | quoted
  /-- After a bar, line breaks kept. -/
  | literal
  /-- After an angle, line breaks folded. -/
  | folded
  deriving DecidableEq, Repr

end Yaml

/-- A YAML node, with its tag if it has one. -/
inductive Yaml
  | scalar (tag : Option String) (style : Yaml.Style) (text : String)
  | sequence (tag : Option String) (items : List Yaml)
  | mapping (tag : Option String) (pairs : List (Yaml × Yaml))
  /-- A reference to a node from inside it. -/
  | endless
  deriving Inhabited

namespace Yaml

/-- The node that stands where nothing is written. -/
def empty : Yaml := scalar none .plain ""

end Yaml

end SiteLint
