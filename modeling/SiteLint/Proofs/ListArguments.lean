import SiteLint.Proofs.PathNames
import SiteLint.Proofs.RulePaths

/-!
Lists in one argument of a command.

The items stand in one text with commas between them. Splitting the text gives them back just when
there is a list and no comma inside an item; else the items come apart further, in their places.
-/

namespace SiteLint

namespace Text

/-- The items of a list that is written with commas between them. -/
def items (text : String) : List String := (splitAt ',' text.toList).map String.ofList

lemma items_append_comma (a b : String) : items (a ++ "," ++ b) = items a ++ items b := by
  have hsplit := splitAt_append_sep ',' a.toList b.toList
  simpa [items] using congrArg (List.map String.ofList) hsplit

lemma items_of_notMem {text : String} (h : ',' ∉ text.toList) : items text = [text] := by
  simp [items, splitAt_of_notMem h]

lemma notMem_of_mem_items {text item : String} (h : item ∈ items text) : ',' ∉ item.toList := by
  obtain ⟨piece, hpiece, rfl⟩ := List.mem_map.1 h
  simpa using notMem_of_mem_splitAt hpiece

lemma items_intercalate {xs : List String} (hxs : xs ≠ []) :
    items (String.intercalate "," xs) = xs.flatMap items := by
  induction xs with
  | nil => exact absurd rfl hxs
  | cons x xs ih =>
    by_cases hrest : xs = []
    · simp [hrest]
    · rw [String.intercalate_cons_of_ne_nil hrest, items_append_comma, ih hrest, List.flatMap_cons]

lemma flatMap_items {xs : List String} (h : ∀ x ∈ xs, ',' ∉ x.toList) : xs.flatMap items = xs := by
  rw [List.flatMap_congr fun x hx => items_of_notMem (h x hx), List.flatMap_singleton']

/-- **Lists with commas.** A list that is written out is read back just when no item has a comma
in it. -/
lemma items_intercalate_eq_iff {xs : List String} (hxs : xs ≠ []) :
    items (String.intercalate "," xs) = xs ↔ ∀ x ∈ xs, ',' ∉ x.toList := by
  refine ⟨fun h x hx => ?_, fun h => ?_⟩
  · rw [← h] at hx
    exact notMem_of_mem_items hx
  · rw [items_intercalate hxs, flatMap_items h]

end Text

namespace ToolCommand

/-- The value of the option `name`, where arguments come in pairs of an option and its value. -/
def valueIn? (name : String) : List String → Option String
  | option :: value :: rest => if option = name then some value else valueIn? name rest
  | _ => none

/-- The text behind `name=` in the first argument that starts so. -/
def assignedIn? (name : String) (arguments : List String) : Option String :=
  arguments.findSome? fun a => (a.toList.dropPrefix? (name ++ "=").toList).map String.ofList

end ToolCommand

variable {host : Host} {c : Configuration} {targets : List Target} {cmd : ToolCommand}

lemma Eslint.ext_of_command (h : command host c targets = .ok cmd) :
    ToolCommand.valueIn? "--ext" cmd.arguments = some (extensionArgument c.eslint) := by
  obtain ⟨-, -, harguments⟩ := RuleOption.eslint_command h
  rw [harguments]
  simp [ToolCommand.valueIn?]

namespace CodeSniffer

lemma arguments_of_command (h : command host c targets = .ok cmd) :
    cmd.arguments =
      ["--standard=" ++ c.phpcs.configPath.toString, "--report=json",
        "--extensions=" ++ String.intercalate "," c.phpcs.extensionList,
        "--ignore=" ++ String.intercalate "," (ignorePatterns host c.phpcs.ignorePath)] ++
      targets.map fun t => t.path.toString := by
  unfold command at h
  split at h
  · cases h
  · cases h
    rfl

lemma extensions_of_command (h : command host c targets = .ok cmd) :
    ToolCommand.assignedIn? "--extensions" cmd.arguments =
      some (String.intercalate "," c.phpcs.extensionList) := by
  rw [arguments_of_command h]
  simp [ToolCommand.assignedIn?, List.dropPrefix?, -String.toList_intercalate]

lemma ignore_of_command (h : command host c targets = .ok cmd) :
    ToolCommand.assignedIn? "--ignore" cmd.arguments =
      some (String.intercalate "," (ignorePatterns host c.phpcs.ignorePath)) := by
  rw [arguments_of_command h]
  simp [ToolCommand.assignedIn?, List.dropPrefix?, -String.toList_intercalate]

end CodeSniffer

end SiteLint
