import Mathlib.Data.List.Perm.Basic
import SiteLint.CommandLine
import SiteLint.Proofs.Results
import SiteLint.Proofs.TextCut

/-!
Command lines, written and read.

The options of a command can be written in any order, each with its value in one argument or in
two. Reading puts the values down one by one and refuses an option that has one. An option whose
value is an argument of its own is put down when the next one comes, which makes no difference to
the outcome: what is written comes to what `Arguments.fill` makes of the values.

Nor can any other command line name an option twice. Once it has come, it has a value or is pending
(`Reading.Took`), and it stays so; when it comes again, it is refused or is pending while it has a
value (`Reading.Doomed`), and no step leads out of that but to an error.
-/

namespace SiteLint.CommandLine

/-! ### Writing -/

/-- The word of the command. -/
def commandWord : Command → String
  | .jslint => "jslint"
  | .phplint => "phplint"
  | .lint => "lint"
  | .cs => "cs"

/-- The arguments that give an option a value. -/
inductive Spelled (o : OptionName) (v : String) : List String → Prop
  /-- The value is the next argument, if it does not look like an option. -/
  | apart (h : v.toList.head? ≠ some '-') : Spelled o v ["--" ++ o.word, v]
  | joined : Spelled o v ["--" ++ o.word ++ "=" ++ v]

/-- The arguments that give options values, one after the other. -/
inductive Written : List (OptionName × String) → List String → Prop
  | nil : Written [] []
  | cons {o : OptionName} {v : String} {given : List (OptionName × String)}
    {spelled args : List String} (h : Spelled o v spelled) (later : Written given args) :
    Written ((o, v) :: given) (spelled ++ args)

/-- The options that have a value, with their values. -/
def Arguments.given (a : Arguments) : List (OptionName × String) :=
  OptionName.all.filterMap fun o => (a.get o).map (o, ·)

/-- The argument gives the option a value, or starts to. -/
inductive Names (o : OptionName) : String → Prop
  | apart : Names o ("--" ++ o.word)
  | joined (v : String) : Names o ("--" ++ o.word ++ "=" ++ v)

/-! ### Values that are put down -/

namespace Arguments

/-- Puts values down in their order, each where there is none. -/
def fill (a : Arguments) : List (OptionName × String) → Except UsageError Arguments
  | [] => .ok a
  | (o, v) :: given => if (a.get o).isSome then .error .optionRepeated else (a.set v o).fill given

variable {a b : Arguments} {o o' : OptionName} {v : String} {given : List (OptionName × String)}

lemma ext_get (h : ∀ o, a.get o = b.get o) : a = b := by
  obtain ⟨t, r, p, w⟩ := a
  obtain ⟨t', r', p', w'⟩ := b
  obtain rfl : t = t' := h .target
  obtain rfl : r = r' := h .projectRoot
  obtain rfl : p = p' := h .pluginDirectory
  obtain rfl : w = w' := h .output
  rfl

lemma get_set (a : Arguments) (v : String) (o o' : OptionName) :
    (a.set v o).get o' = if o' = o then some v else a.get o' := by
  cases o <;> cases o' <;> rfl

lemma isSome_set (a : Arguments) {v : String} {o o' : OptionName} :
    ((a.set v o).get o').isSome ↔ o' = o ∨ (a.get o').isSome := by
  by_cases h : o' = o <;> simp [get_set, h]

lemma mem_given : (o, v) ∈ a.given ↔ a.get o = some v := by
  have hall : o ∈ OptionName.all := by cases o <;> decide
  simp only [given, List.mem_filterMap, Option.map_eq_some_iff]
  constructor
  · rintro ⟨o', -, v', hv, h⟩
    cases h
    exact hv
  · exact fun h => ⟨o, hall, v, h, rfl⟩

lemma nodup_given (a : Arguments) : (a.given.map (·.1)).Nodup := by
  have hall : OptionName.all.Nodup := by decide
  rw [given, List.Nodup, List.pairwise_map, List.pairwise_filterMap]
  refine hall.imp fun hne x hx y hy => ?_
  obtain ⟨_, -, rfl⟩ := Option.map_eq_some_iff.1 hx
  obtain ⟨_, -, rfl⟩ := Option.map_eq_some_iff.1 hy
  exact hne

lemma fill_append (a : Arguments) (given later : List (OptionName × String)) :
    a.fill (given ++ later) = (a.fill given).bind (·.fill later) := by
  induction given generalizing a with
  | nil => rfl
  | cons x given ih =>
    obtain ⟨o, v⟩ := x
    rw [List.cons_append, fill, fill]
    split
    · rfl
    · exact ih _

lemma fill_of_nodup (hnodup : (given.map (·.1)).Nodup)
    (hfree : ∀ o ∈ given.map (·.1), a.get o = .none) :
    ∃ b, a.fill given = .ok b ∧ (∀ o v, (o, v) ∈ given → b.get o = some v) ∧
      ∀ o ∉ given.map (·.1), b.get o = a.get o := by
  induction given generalizing a with
  | nil => exact ⟨a, rfl, by simp, fun _ _ => rfl⟩
  | cons x given ih =>
    obtain ⟨o, v⟩ := x
    rw [List.map_cons, List.nodup_cons] at hnodup
    rw [List.map_cons, List.forall_mem_cons] at hfree
    have hrest : ∀ o' ∈ given.map (·.1), (a.set v o).get o' = .none := by
      intro o' ho'
      have hne : o' ≠ o := by
        rintro rfl
        exact hnodup.1 ho'
      rw [get_set, if_neg hne]
      exact hfree.2 o' ho'
    obtain ⟨b, hb, hgiven, hothers⟩ := ih hnodup.2 hrest
    refine ⟨b, ?_, fun o' v' h => ?_, fun o' ho' => ?_⟩
    · rw [fill, hfree.1]
      exact hb
    · rcases List.mem_cons.1 h with heq | h
      · cases heq
        rw [hothers o hnodup.1, get_set, if_pos rfl]
      · exact hgiven o' v' h
    · rw [List.map_cons, List.mem_cons, not_or] at ho'
      rw [hothers o' ho'.2, get_set, if_neg ho'.1]

lemma fill_of_taken (h : ¬ (given.map (·.1)).Nodup ∨ ∃ o ∈ given.map (·.1), (a.get o).isSome) :
    a.fill given = .error .optionRepeated := by
  induction given generalizing a with
  | nil => simp at h
  | cons x given ih =>
    obtain ⟨o, v⟩ := x
    rw [fill]
    split
    · rfl
    · rename_i hfree
      refine ih ?_
      rcases h with h | ⟨o', ho', htaken⟩
      · rw [List.map_cons, List.nodup_cons, not_and_or, not_not] at h
        rcases h with h | h
        · exact .inr ⟨o, h, a.isSome_set.2 (.inl rfl)⟩
        · exact .inl h
      · have hne : o' ≠ o := by
          rintro rfl
          exact hfree htaken
        rw [List.map_cons, List.mem_cons] at ho'
        exact .inr ⟨o', ho'.resolve_left hne, a.isSome_set.2 (.inr htaken)⟩

lemma fill_given (h : given.Perm a.given) : Arguments.none.fill given = .ok a := by
  have hnodup : (given.map (·.1)).Nodup := (h.map _).nodup_iff.2 (nodup_given a)
  have hnone (o : OptionName) : none.get o = .none := by cases o <;> rfl
  obtain ⟨b, hb, hgiven, hothers⟩ := fill_of_nodup hnodup fun o _ => hnone o
  refine hb.trans (congrArg Except.ok (ext_get fun o => ?_))
  cases ho : a.get o with
  | some v => exact hgiven o v (h.mem_iff.2 (mem_given.2 ho))
  | none =>
    refine (hothers o fun hmem => ?_).trans (hnone o)
    obtain ⟨⟨o', v⟩, hv, rfl⟩ := List.mem_map.1 hmem
    replace hv := mem_given.1 (h.mem_iff.1 hv)
    rw [ho] at hv
    cases hv

end Arguments

/-! ### Reading what is written -/

lemma shape_joined (o : OptionName) (v : String) :
    Shape.of ("--" ++ o.word ++ "=" ++ v) = .long o.word (some v) := by
  have hword : ¬ ['='] <:+: o.word.toList := by cases o <;> decide
  have hbreak := Text.breakAt_append (by decide : Text.Unbordered ['=']) hword v.toList
  have hchars : ("--" ++ o.word ++ "=" ++ v).toList =
      '-' :: '-' :: (o.word.toList ++ ['='] ++ v.toList) := by simp
  obtain ⟨c, cs, hcs⟩ : ∃ c cs, o.word.toList ++ ['='] ++ v.toList = c :: cs :=
    List.exists_cons_of_ne_nil (by simp)
  rw [Shape.of, hchars]
  rw [hcs] at hbreak ⊢
  simp [hbreak]

lemma shape_apart (o : OptionName) : Shape.of ("--" ++ o.word) = .long o.word none := by
  cases o <;> rfl

lemma shape_value {v : String} (h : v.toList.head? ≠ some '-') : Shape.of v = .plain := by
  rw [Shape.of]
  cases hv : v.toList with
  | nil => rfl
  | cons c cs =>
    have hc : c ≠ '-' := by simpa [hv] using h
    simp [hc]

namespace Reading

/-- The values that are not put down yet. -/
def waiting (r : Reading) : List (OptionName × String) :=
  match r.pending with
  | some (o, some v) => [(o, v)]
  | _ => []

/-- No option waits for its value. -/
def Complete (r : Reading) : Prop := ∀ o, r.pending ≠ some (o, none)

variable {r s : Reading} {o : OptionName} {v arg : String}

lemma settle_eq (hr : r.Complete) :
    r.settle = (r.arguments.fill r.waiting).map fun a => ⟨a, none⟩ := by
  obtain ⟨a, pending⟩ := r
  match pending with
  | none => rfl
  | some (o, none) => exact absurd rfl (hr o)
  | some (o, some v) =>
    by_cases ho : (a.get o).isSome <;> simp [settle, put, waiting, Arguments.fill, ho, Except.map]

lemma put_eq (a : Arguments) (o : OptionName) (v : String) :
    put ⟨a, none⟩ o v = (a.fill [(o, v)]).map fun b => ⟨b, none⟩ := by
  by_cases ho : (a.get o).isSome <;> simp [put, Arguments.fill, ho, Except.map]

lemma step_joined (r : Reading) (o : OptionName) (v : String) :
    r.step OptionName.all ("--" ++ o.word ++ "=" ++ v) = r.settle.bind fun s => s.put o v := by
  rw [step, shape_joined]
  cases o <;> rfl

lemma step_apart (r : Reading) (o : OptionName) :
    r.step OptionName.all ("--" ++ o.word) =
      r.settle.map fun s => { s with pending := some (o, none) } := by
  rw [step, shape_apart]
  cases o <;> cases r.settle <;> rfl

lemma step_value (a : Arguments) (o : OptionName) (hv : v.toList.head? ≠ some '-') :
    step OptionName.all ⟨a, some (o, none)⟩ v = .ok ⟨a, some (o, some v)⟩ := by
  rw [step, shape_value hv]

end Reading

lemma joined_ne_separator (o : OptionName) (v : String) : "--" ++ o.word ++ "=" ++ v ≠ "--" := by
  intro h
  have hshape := shape_joined o v
  rw [h] at hshape
  cases hshape

lemma apart_ne_separator (o : OptionName) : "--" ++ o.word ≠ "--" := by
  cases o <;> decide

lemma value_ne_separator {v : String} (h : v.toList.head? ≠ some '-') : v ≠ "--" := by
  rintro rfl
  exact h rfl

/-- **Reading options** puts their values down in the order in which they are written, behind a
value that is not put down yet. -/
lemma readOptions_of_written {r : Reading} {given : List (OptionName × String)}
    {args : List String} (hr : r.Complete) (h : Written given args) :
    readOptions OptionName.all r args = r.arguments.fill (r.waiting ++ given) := by
  induction h generalizing r with
  | nil =>
    rw [readOptions, Reading.settle_eq hr, List.append_nil]
    cases r.arguments.fill r.waiting <;> rfl
  | @cons o v given spelled args h later ih =>
    rw [Arguments.fill_append]
    cases h with
    | apart hv =>
      rw [List.cons_append, readOptions, if_neg (apart_ne_separator o), Reading.step_apart,
        Reading.settle_eq hr]
      cases r.arguments.fill r.waiting with
      | error e => rfl
      | ok a =>
        -- the value waits until the next option comes
        have hwaits : Reading.Complete ⟨a, some (o, some v)⟩ := fun o' h => by cases h
        change readOptions OptionName.all ⟨a, some (o, none)⟩ (v :: args) = a.fill ((o, v) :: given)
        rw [readOptions, if_neg (value_ne_separator hv), Reading.step_value a o hv]
        exact ih hwaits
    | joined =>
      rw [List.singleton_append, readOptions, if_neg (joined_ne_separator o v), Reading.step_joined,
        Reading.settle_eq hr]
      cases r.arguments.fill r.waiting with
      | error e => rfl
      | ok a =>
        have hsplit : a.fill ((o, v) :: given) = (a.fill [(o, v)]).bind (·.fill given) :=
          a.fill_append [(o, v)] given
        change (Reading.put ⟨a, none⟩ o v).bind (fun s => readOptions OptionName.all s args) =
          a.fill ((o, v) :: given)
        rw [Reading.put_eq, hsplit]
        cases a.fill [(o, v)] with
        | error e => rfl
        | ok b =>
          have hnone : Reading.Complete ⟨b, none⟩ := fun o' h => by cases h
          exact ih hnone

/-! ### An option that comes again -/

namespace Reading

variable {options : List OptionName} {r s : Reading} {o : OptionName} {v arg : String}

/-- The option has come. -/
def Took (r : Reading) (o : OptionName) : Prop :=
  (r.arguments.get o).isSome ∨ ∃ v, r.pending = some (o, v)

/-- An option that has a value has come again. -/
def Doomed (r : Reading) : Prop := ∃ o v, (r.arguments.get o).isSome ∧ r.pending = some (o, v)

/-- A step that is taken puts down what is pending and then takes an option, with its value or
without, or takes the value that an option waits for. -/
lemma step_cases (h : r.step options arg = .ok s) :
    (∃ t, r.settle = .ok t ∧ ∃ o, (∃ v, t.put o v = .ok s) ∨
      s = { t with pending := some (o, none) }) ∨
    ∃ o, r.pending = some (o, none) ∧ s = { r with pending := some (o, some arg) } := by
  rw [step] at h
  cases hshape : Shape.of arg with
  | separator =>
    rw [hshape] at h
    cases h
  | long word value =>
    simp only [hshape] at h
    split at h
    · split at h
      · cases h
      · obtain ⟨_, -, h⟩ := bind_ok_iff.1 h
        cases h
    · split at h
      · cases h
      · rename_i o _
        obtain ⟨t, ht, h⟩ := bind_ok_iff.1 h
        refine .inl ⟨t, ht, o, ?_⟩
        cases value with
        | some v => exact .inl ⟨v, h⟩
        | none => exact .inr (Except.ok.inj h).symm
  | short letters =>
    simp only [hshape] at h
    split at h
    · obtain ⟨_, -, h⟩ := bind_ok_iff.1 h
      cases h
    · cases h
  | plain =>
    simp only [hshape] at h
    split at h
    · rename_i o ho
      exact .inr ⟨o, ho, (Except.ok.inj h).symm⟩
    · cases h

lemma of_put (h : r.put o v = .ok s) :
    ¬ (r.arguments.get o).isSome ∧ s = { r with arguments := r.arguments.set v o } := by
  rw [put] at h
  split at h
  · cases h
  · rename_i hfree
    exact ⟨hfree, (Except.ok.inj h).symm⟩

lemma of_settle (h : r.settle = .ok s) :
    ¬ r.Doomed ∧ ∀ o, r.Took o → (s.arguments.get o).isSome := by
  obtain ⟨a, pending⟩ := r
  match pending with
  | none =>
    cases h
    refine ⟨?_, ?_⟩
    · rintro ⟨o, v, -, hpending⟩
      cases hpending
    · rintro o (ho | ⟨v, hpending⟩)
      · exact ho
      · cases hpending
  | some (o, none) => cases h
  | some (o, some v) =>
    obtain ⟨hfree, rfl⟩ := of_put h
    refine ⟨?_, ?_⟩
    · rintro ⟨o, v, ho, hpending⟩
      cases hpending
      exact hfree ho
    · rintro o' (ho | ⟨v, hpending⟩)
      · exact a.isSome_set.2 (.inr ho)
      · cases hpending
        exact a.isSome_set.2 (.inl rfl)

lemma Took.step (hr : r.Took o) (h : r.step options arg = .ok s) : s.Took o := by
  obtain ⟨t, ht, o', ⟨v, hs⟩ | rfl⟩ | ⟨o', ho', rfl⟩ := step_cases h
  · obtain ⟨-, rfl⟩ := of_put hs
    exact .inl (t.arguments.isSome_set.2 (.inr ((of_settle ht).2 o hr)))
  · exact .inl ((of_settle ht).2 o hr)
  · rcases hr with hr | ⟨v, hr⟩
    · exact .inl hr
    · cases ho'.symm.trans hr
      exact .inr ⟨_, rfl⟩

lemma Doomed.step (hr : r.Doomed) (h : r.step options arg = .ok s) : s.Doomed := by
  obtain ⟨t, ht, -⟩ | ⟨o, ho, rfl⟩ := step_cases h
  · exact absurd hr (of_settle ht).1
  · obtain ⟨o', v, htaken, ho'⟩ := hr
    cases ho.symm.trans ho'
    exact ⟨o, _, htaken, rfl⟩

lemma took_of_names (ho : Names o arg) (h : r.step OptionName.all arg = .ok s) : s.Took o := by
  cases ho with
  | apart =>
    rw [step_apart] at h
    obtain ⟨t, -, rfl⟩ := map_ok_iff.1 h
    exact .inr ⟨_, rfl⟩
  | joined v =>
    rw [step_joined] at h
    obtain ⟨t, -, hs⟩ := bind_ok_iff.1 h
    obtain ⟨-, rfl⟩ := of_put hs
    exact .inl (t.arguments.isSome_set.2 (.inl rfl))

lemma doomed_of_names (hr : r.Took o) (ho : Names o arg)
    (h : r.step OptionName.all arg = .ok s) : s.Doomed := by
  cases ho with
  | apart =>
    rw [step_apart] at h
    obtain ⟨t, ht, rfl⟩ := map_ok_iff.1 h
    exact ⟨o, _, (of_settle ht).2 o hr, rfl⟩
  | joined v =>
    -- a value that is joined is put down at once, so that there is no such step
    rw [step_joined] at h
    obtain ⟨t, ht, hs⟩ := bind_ok_iff.1 h
    exact absurd ((of_settle ht).2 o hr) (of_put hs).1

lemma settle_of_doomed (hr : r.Doomed) : ∃ e, r.settle = .error e := by
  cases h : r.settle with
  | error e => exact ⟨e, rfl⟩
  | ok s => exact absurd hr (of_settle h).1

end Reading

lemma Names.ne_separator {o : OptionName} {arg : String} (h : Names o arg) : arg ≠ "--" := by
  cases h with
  | apart => exact apart_ne_separator o
  | joined v => exact joined_ne_separator o v

lemma readOptions_cons {options : List OptionName} {r : Reading} {arg : String}
    (harg : arg ≠ "--") {args : List String}
    (h : ∀ s, r.step options arg = .ok s → ∃ e, readOptions options s args = .error e) :
    ∃ e, readOptions options r (arg :: args) = .error e := by
  rw [readOptions, if_neg harg]
  cases hs : r.step options arg with
  | error e => exact ⟨e, rfl⟩
  | ok s => exact h s hs

lemma readOptions_separator {options : List OptionName} {r : Reading} {args : List String}
    (h : args ≠ []) : readOptions options r ("--" :: args) = .error .unknownArgument := by
  rw [readOptions, if_pos rfl, if_neg h]

lemma readOptions_doomed {options : List OptionName} {r : Reading} (hr : r.Doomed)
    (args : List String) : ∃ e, readOptions options r args = .error e := by
  induction args generalizing r with
  | nil =>
    obtain ⟨e, he⟩ := Reading.settle_of_doomed hr
    rw [readOptions, he]
    exact ⟨e, rfl⟩
  | cons arg args ih =>
    by_cases harg : arg = "--"
    · obtain ⟨e, he⟩ := Reading.settle_of_doomed hr
      rw [readOptions, if_pos harg, he]
      split
      · exact ⟨e, rfl⟩
      · exact ⟨_, rfl⟩
    · exact readOptions_cons harg fun s hs => ih (hr.step hs)

lemma readOptions_took {r : Reading} {o : OptionName} {y : String} (hr : r.Took o)
    (hy : Names o y) (between after : List String) :
    ∃ e, readOptions OptionName.all r (between ++ y :: after) = .error e := by
  induction between generalizing r with
  | nil =>
    exact readOptions_cons hy.ne_separator fun s hs =>
      readOptions_doomed (Reading.doomed_of_names hr hy hs) after
  | cons arg between ih =>
    by_cases harg : arg = "--"
    · rw [harg]
      exact ⟨_, readOptions_separator (by simp)⟩
    · exact readOptions_cons harg fun s hs => ih (hr.step hs)

lemma readOptions_repeated {o : OptionName} {x y : String} (hx : Names o x) (hy : Names o y)
    (r : Reading) (before between after : List String) :
    ∃ e, readOptions OptionName.all r (before ++ x :: between ++ y :: after) = .error e := by
  induction before generalizing r with
  | nil =>
    exact readOptions_cons hx.ne_separator fun s hs =>
      readOptions_took (Reading.took_of_names hx hs) hy between after
  | cons arg before ih =>
    by_cases harg : arg = "--"
    · rw [harg]
      exact ⟨_, readOptions_separator (by simp)⟩
    · exact readOptions_cons harg fun s _ => ih s

/-! ### Command lines -/

lemma read_command (c : Command) (args : List String) :
    read (commandWord c :: args) = (readOptions OptionName.all .start args).map (.lint c) := by
  cases c <;> rfl

lemma read_written (c : Command) {given : List (OptionName × String)} {args : List String}
    (h : Written given args) :
    read (commandWord c :: args) = (Arguments.none.fill given).map (.lint c) := by
  have hstart : Reading.start.Complete := fun o h => by cases h
  rw [read_command, readOptions_of_written hstart h]
  rfl

/-- **Command lines** are read back. The values that an assignment gives to options can be written
behind the command in any order, each joined to its option or, unless it begins with a hyphen, as
the next argument: that command is asked for, with that assignment. An option that is written
twice is an error, with whatever values, and so is an option that is named by two arguments of any
command line, whatever else stands in it. -/
theorem options_read_back :
    (∀ (c : Command) (a : Arguments) (given : List (OptionName × String)) (args : List String),
      given.Perm a.given → Written given args → read (commandWord c :: args) = .ok (.lint c a)) ∧
    (∀ (c : Command) (given : List (OptionName × String)) (args : List String),
      ¬ (given.map (·.1)).Nodup → Written given args →
        read (commandWord c :: args) = .error .optionRepeated) ∧
    ∀ (c : Command) (o : OptionName) (before between after : List String) (x y : String),
      Names o x → Names o y →
        ∃ e, read (commandWord c :: before ++ x :: between ++ y :: after) = .error e := by
  refine ⟨fun c a given args hgiven hargs => ?_, fun c given args hnodup hargs => ?_,
    fun c o before between after x y hx hy => ?_⟩
  · rw [read_written c hargs, Arguments.fill_given hgiven]
    rfl
  · rw [read_written c hargs, Arguments.fill_of_taken (.inl hnodup)]
    rfl
  · obtain ⟨e, he⟩ := readOptions_repeated hx hy .start before between after
    rw [List.cons_append, List.cons_append, read_command, he]
    exact ⟨e, rfl⟩

/-- Values that look like options or commands, or are empty, are what they are. -/
theorem options_read_back_of_lookalikes :
    read ["phplint", "--output=--target=x", "--target", "", "--project-root", "a=b cs",
      "--plugin-dir=cs"] =
        .ok (.lint .phplint ⟨some "", some "a=b cs", some "cs", some "--target=x"⟩) ∧
    read ["cs", "--target", "cs", "--output=", "--target=cs"] = .error .optionRepeated ∧
    ∃ e, read ["lint", "a", "--output=json", "--help", "--output"] = .error e := by
  refine ⟨?_, ?_, ?_⟩
  · refine options_read_back.1 .phplint _
      [(.output, "--target=x"), (.target, ""), (.projectRoot, "a=b cs"), (.pluginDirectory, "cs")]
      _ (by decide) ?_
    exact .cons .joined (.cons (.apart (by decide)) (.cons (.apart (by decide))
      (.cons .joined .nil)))
  · refine options_read_back.2.1 .cs [(.target, "cs"), (.output, ""), (.target, "cs")] _
      (by decide) ?_
    exact .cons (.apart (by decide)) (.cons .joined (.cons .joined .nil))
  · exact options_read_back.2.2 .lint .output ["a"] ["--help"] [] _ _ (.joined "json") .apart

end SiteLint.CommandLine
