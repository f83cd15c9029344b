/-!
Named values in order, and looking one up under any of its names.
-/

namespace SiteLint

/-- Values with their names, in the order they were given. A name may be given more than once. -/
abbrev Record (α : Type) := List (String × α)

namespace Record

/-- The value of a field that goes by the given names, if it is there. Given twice, under one of
the names or under two of them, it is refused. -/
def field? {α : Type} (names : List String) (ms : Record α) : Option (Option α) :=
  match ms.filter fun m => names.contains m.1 with
  | [] => some none
  | [m] => some (some m.2)
  | _ => none

/-- The members without those that go by the given names. -/
def without {α : Type} (names : List String) (ms : Record α) : Record α :=
  ms.filter fun m => !names.contains m.1

end Record

end SiteLint
