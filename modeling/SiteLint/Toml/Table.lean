import SiteLint.Toml

/-!
Tables of TOML while their document is read.

A table comes into being by a header of its own, as a part of another header, or by a dotted key.
A header may open a table that so far was only part of headers; a dotted key may add only to
tables that dotted keys made. Nothing is added to a value that is complete.
-/

namespace SiteLint.Toml

/-- How a table came into being. -/
inductive Origin
  /-- By a header of its own. -/
  | header
  /-- As a part of a longer header. -/
  | implied
  /-- By a dotted key. -/
  | dotted
  deriving DecidableEq, Repr

/-- What a name stands for while the document is read. -/
inductive Slot
  | value (v : Toml)
  | table (origin : Origin) (members : List (String × Slot))
  /-- Tables under a header in doubled brackets, the last one first. -/
  | tables (elements : List (List (String × Slot)))
  deriving Inhabited

abbrev Slots := List (String × Slot)

namespace Slots

def get? (k : String) (ms : Slots) : Option Slot := (ms.find? (·.1 = k)).map (·.2)

/-- Puts a slot in the place of the one with its name, or at the end. -/
def set (k : String) (s : Slot) (ms : Slots) : Slots :=
  if (get? k ms).isSome then ms.map fun m => if m.1 = k then (k, s) else m else ms ++ [(k, s)]

/-- Gives a value to a dotted key. `fresh` tells whether the table at hand was made by the key's
own dots; only such a table takes the value of a key with dots. -/
def assign (v : Toml) : List String → Slots → Option Slots
  | [], _ => none
  | [k], ms => if (get? k ms).isSome then none else some (ms ++ [(k, .value v)])
  | k :: j :: ks, ms =>
    match get? k ms with
    | none => (assign v (j :: ks) []).map fun inner => ms ++ [(k, .table .dotted inner)]
    | some (.table origin inner) =>
      if origin = .dotted || (origin = .implied && !ks.isEmpty) then
        (assign v (j :: ks) inner).map fun inner => set k (.table origin inner) ms
      else none
    | some _ => none

/-- Changes the table that a path of names leads to, making the tables in between as needed. An
array of tables is entered at its last table. -/
def within (f : Slots → Option Slots) : List String → Slots → Option Slots
  | [], ms => f ms
  | k :: ks, ms =>
    match get? k ms with
    | none => (within f ks []).map fun inner => ms ++ [(k, .table .implied inner)]
    | some (.table origin inner) =>
      (within f ks inner).map fun inner => set k (.table origin inner) ms
    | some (.tables (last :: before)) =>
      (within f ks last).map fun last => set k (.tables (last :: before)) ms
    | some _ => none

/-- Opens the table `k` by its own header. -/
def openTable (k : String) (ms : Slots) : Option Slots :=
  match get? k ms with
  | none => some (ms ++ [(k, .table .header [])])
  | some (.table .implied inner) => some (set k (.table .header inner) ms)
  | some _ => none

/-- Opens a further table of the array `k`. -/
def openElement (k : String) (ms : Slots) : Option Slots :=
  match get? k ms with
  | none => some (ms ++ [(k, .tables [[]])])
  | some (.tables elements) => some (set k (.tables ([] :: elements)) ms)
  | some _ => none

end Slots

mutual

/-- The value of a slot when the document is complete. -/
def Slot.finish : Slot → Toml
  | .value v => v
  | .table _ ms => .table (finishMembers ms)
  | .tables es => .array (finishElements es).reverse

def finishMembers : List (String × Slot) → List (String × Toml)
  | [] => []
  | (k, s) :: ms => (k, s.finish) :: finishMembers ms

def finishElements : List (List (String × Slot)) → List Toml
  | [] => []
  | ms :: es => .table (finishMembers ms) :: finishElements es

end

end SiteLint.Toml
