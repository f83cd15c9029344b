import SiteLint.Json.Reader
import SiteLint.Json.Shape
import SiteLint.Settings.Schema
import SiteLint.Toml.Reader
import SiteLint.Yaml.Reader

/-!
The formats that settings are written in.

In JSON, null stands for no value, and a record may be written as the array of all its fields. In
YAML, an empty or null plain scalar stands for no value, and also for an empty record or list. In
TOML every value counts.
-/

namespace SiteLint.Settings

inductive Format
  | toml
  | yaml
  | json
  deriving DecidableEq, Repr

/-! ### JSON -/

/-- A sound JSON value as it is kept. -/
def keepJson : Json → Kept
  | .null => .nothing
  | .str (some s) => .text s
  | .arr vs => .items (vs.map keepJson)
  | _ => .other

/-- A name alone, or an object with that name alone and null. -/
def jsonChoice? : Json → Option String
  | .str s => s
  | .obj [(s, .null)] => s
  | _ => Option.none

/-- A record in JSON, with all fields if it is written as an array. -/
def jsonRecord? (fields : List String) : Json → Option (Record Json)
  | .arr vs => if vs.length = fields.length then some (fields.zip vs) else Option.none
  | v => v.members?

/-- The view of JSON values. Kept values may be nested `depth` levels deep. -/
def jsonView (depth : Nat) : View Json where
  absent? v := some (match v with
    | .null => true
    | _ => false)
  text? := Json.text?
  flag? := Json.flag?
  items? := Json.items?
  record? := jsonRecord?
  members? := Json.members?
  choice? := jsonChoice?
  keep? v := (Json.sound? depth v).map keepJson

/-! ### TOML -/

/-- The integer has at most so many bits, with or without a sign. -/
def fitsBits (bits : Nat) (n : Int) : Bool :=
  -(Nat.pow 2 (bits - 1) : Nat) ≤ n && n < (Nat.pow 2 bits : Nat)

/-- Kept integers have 64 bits. -/
def isWordSized (n : Int) : Bool := fitsBits 64 n

mutual

/-- A TOML value as it is kept. -/
def keepToml? : Toml → Option Kept
  | .text s => some (.text s)
  | .integer n => if isWordSized n then some .other else Option.none
  | .boolean _ => some .other
  | .float => some .other
  | .dateTime => some .other
  | .array vs => (keepTomlItems? vs).map .items
  | .table ms => if keepTomlMembers? ms then some .other else Option.none

def keepTomlItems? : List Toml → Option (List Kept)
  | [] => some []
  | v :: vs => do some ((← keepToml? v) :: (← keepTomlItems? vs))

def keepTomlMembers? : List (String × Toml) → Bool
  | [] => true
  | (_, v) :: ms => (keepToml? v).isSome && keepTomlMembers? ms

end

/-- A name alone, or a table with that name alone and nothing in it. -/
def tomlChoice? : Toml → Option String
  | .text s => some s
  | .table [(s, .table [])] => some s
  | .table [(s, .array [])] => some s
  | _ => Option.none

def tomlMembers? : Toml → Option (Record Toml)
  | .table ms => some ms
  | _ => Option.none

/-- The view of TOML values. -/
def tomlView : View Toml where
  absent? _ := some false
  text?
    | .text s => some s
    | _ => Option.none
  flag?
    | .boolean b => some b
    | _ => Option.none
  items?
    | .array vs => some vs
    | _ => Option.none
  record? _ := tomlMembers?
  members? := tomlMembers?
  choice? := tomlChoice?
  keep? := keepToml?

/-! ### YAML -/

/-- The words for no value. -/
def isNullWord (s : String) : Bool := ["null", "Null", "NULL", "~"].contains s

/-- The truth value that a word stands for. -/
def flagWord? (s : String) : Option Bool :=
  if ["true", "True", "TRUE"].contains s then some true
  else if ["false", "False", "FALSE"].contains s then some false
  else Option.none

/-- A tag of the core schema. -/
def coreTag (name : String) : String := "tag:yaml.org,2002:" ++ name

/-- Zeros in front make a run of digits a text. -/
def isPaddedNumber (cs : List Char) : Bool :=
  let digits :=
    match cs with
    | '-' :: ds => ds
    | '+' :: ds => ds
    | _ => cs
  digits.length > 1 && digits.head? = some '0' &&
    digits.all fun c => (Text.digitValue? 10 c).isSome

/-- The number after a mark for its base: `0x`, `0o` or `0b`. -/
def basedNumber? : List Char → Option Nat
  | '0' :: 'x' :: cs => Text.readDigits 16 cs
  | '0' :: 'o' :: cs => Text.readDigits 8 cs
  | '0' :: 'b' :: cs => Text.readDigits 2 cs
  | _ => Option.none

/-- The integer that a plain scalar writes, as long as it has at most 128 bits. -/
def wholeNumber? (cs : List Char) : Option Int := do
  let plain (ds : List Char) : Option Nat :=
    if isPaddedNumber cs then Option.none else Text.readDigits 10 ds
  let n : Int ← (
    match cs with
    | '-' :: ds => ((basedNumber? ds).or (plain ds)).map fun n => -(n : Int)
    | '+' :: ds => ((basedNumber? ds).or (plain ds)).map fun n => (n : Int)
    | ds => ((basedNumber? ds).or (plain ds)).map fun n => (n : Int))
  if fitsBits 128 n then some n else Option.none

/-- The digits up to the end of a run, and what follows. -/
def digitRun (cs : List Char) : List Char × List Char :=
  cs.span fun c => (Text.digitValue? 10 c).isSome

/-- A power of ten: a sign or none, and digits. -/
def powerOfTen? (cs : List Char) : Option Int :=
  match cs with
  | '-' :: ds => (Text.readDigits 10 ds).map fun n => -(n : Int)
  | '+' :: ds => (Text.readDigits 10 ds).map fun n => (n : Int)
  | ds => (Text.readDigits 10 ds).map fun n => (n : Int)

/-- A number with a point or a power of ten, without its sign. -/
def unsignedNumeral? (cs : List Char) : Option Text.Numeral := do
  let (whole, rest) := digitRun cs
  let (fraction, rest) :=
    match rest with
    | '.' :: rest => let (ds, rest) := digitRun rest; (some ds, rest)
    | _ => (Option.none, rest)
  if whole = [] && (fraction.getD []) = [] then Option.none
  let exponent ← (
    match rest with
    | [] => some Option.none
    | 'e' :: ds => (powerOfTen? ds).map some
    | 'E' :: ds => (powerOfTen? ds).map some
    | _ => Option.none)
  some ⟨false, whole, fraction, exponent⟩

/-- The plain scalar writes a number that a double can hold, or an infinity, or no number. -/
def isFloatWord (s : String) : Bool :=
  let cs := s.toList
  [".inf", ".Inf", ".INF", "+.inf", "+.Inf", "+.INF", "-.inf", "-.Inf", "-.INF", ".nan", ".NaN",
    ".NAN"].contains s ||
  match cs with
  | '-' :: ds => (unsignedNumeral? ds).any (!·.overflows)
  | '+' :: ds => (unsignedNumeral? ds).any (!·.overflows)
  | ds => (unsignedNumeral? ds).any (!·.overflows)

/-- A plain scalar without a tag as it is kept. -/
def keepPlain? (s : String) : Option Kept :=
  if s = "" || isNullWord s then some .nothing
  else if (flagWord? s).isSome then some .other
  else
    match wholeNumber? s.toList with
    | some n => if isWordSized n then some .other else Option.none
    | Option.none =>
      if !isPaddedNumber s.toList && isFloatWord s then some .other else some (.text s)

/-- A scalar as it is kept. A core tag has to fit what is written; a tag of the site's own is
refused. -/
def keepScalar? (tag : Option String) (style : Yaml.Style) (s : String) : Option Kept :=
  match tag with
  | some t =>
    if t.toList.head? = some '!' then Option.none
    else if t = coreTag "bool" then (flagWord? s).map fun _ => .other
    else if t = coreTag "int" then
      (wholeNumber? s.toList).bind fun n => if isWordSized n then some .other else Option.none
    else if t = coreTag "float" then if isFloatWord s then some .other else Option.none
    else if t = coreTag "null" then if isNullWord s then some .nothing else Option.none
    else some (.text s)
  | Option.none => if style = .plain then keepPlain? s else some (.text s)

/-- The tag is one of the site's own. -/
def isOwnTag (tag : Option String) : Bool := tag.any fun t => t.toList.head? = some '!'

mutual

/-- A YAML node as it is kept. `depth` more levels may be opened. -/
def keepYaml? (depth : Nat) : Yaml → Option Kept
  | .scalar tag style s => keepScalar? tag style s
  | .sequence tag vs =>
    if isOwnTag tag || depth = 0 then Option.none
    else (keepYamlItems? (depth - 1) vs).map .items
  | .mapping tag ps =>
    if isOwnTag tag || depth = 0 || !keepYamlPairs? (depth - 1) ps then Option.none
    else some .other
  | .endless => Option.none

def keepYamlItems? (depth : Nat) : List Yaml → Option (List Kept)
  | [] => some []
  | v :: vs => do some ((← keepYaml? depth v) :: (← keepYamlItems? depth vs))

def keepYamlPairs? (depth : Nat) : List (Yaml × Yaml) → Bool
  | [] => true
  | (k, v) :: ps =>
    (keepYaml? depth k).isSome && (keepYaml? depth v).isSome && keepYamlPairs? depth ps

end

/-- Whether a node stands for no value. -/
def yamlAbsent? : Yaml → Option Bool
  | .scalar Option.none .plain s => some (s = "" || isNullWord s)
  | .scalar (some t) .plain s =>
    if t = coreTag "null" then if isNullWord s then some true else Option.none else some false
  | .endless => Option.none
  | _ => some false

def yamlText? : Yaml → Option String
  | .scalar _ _ s => some s
  | _ => Option.none

def yamlFlag? : Yaml → Option Bool
  | .scalar _ .plain s => flagWord? s
  | .scalar (some t) .literal s => if t = coreTag "bool" then flagWord? s else Option.none
  | _ => Option.none

def yamlItems? : Yaml → Option (List Yaml)
  | .sequence _ vs => some vs
  | .scalar _ .plain "" => some []
  | _ => Option.none

def yamlMembers? : Yaml → Option (Record Yaml)
  | .mapping _ ps => ps.mapM fun (k, v) => (yamlText? k).map (·, v)
  | .scalar _ .plain "" => some []
  | _ => Option.none

/-- A name alone, or a tag of the site's own with nothing behind it. -/
def yamlChoice? : Yaml → Option String
  | .scalar tag style s =>
    match tag.map String.toList with
    | some ('!' :: name) =>
      if style = .plain && (s = "" || isNullWord s) then some (String.ofList name) else Option.none
    | _ => some s
  | _ => Option.none

/-- Kept nodes below the top level and a section may be nested this deep. -/
def yamlDepth : Nat := 126

/-- The view of YAML nodes. -/
def yamlView : View Yaml where
  absent? := yamlAbsent?
  text? := yamlText?
  flag? := yamlFlag?
  items? := yamlItems?
  record? _ := yamlMembers?
  members? := yamlMembers?
  choice? := yamlChoice?
  keep? := keepYaml? yamlDepth

/-! ### Settings from a text -/

/-- The settings that a text gives in a format. -/
def read? (format : Format) (text : String) : Option Settings :=
  let cs := text.toList
  match format with
  | .toml => (Toml.read? cs).bind tomlView.settings?
  | .yaml => (Yaml.read? cs).bind yamlView.settings?
  | .json => (Json.read? cs).bind (jsonView (Json.depthLimit - 2)).settings?

end SiteLint.Settings
