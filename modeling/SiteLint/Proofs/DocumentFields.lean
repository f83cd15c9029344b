import SiteLint.Proofs.DocumentValues

/-!
What the fields of a record are, apart from how they are read.

A record has its fields under names, or in an order that gives them names. Whoever reads them from
a document refuses a name that is given twice. Whoever reads them from a value that was kept whole
never meets one: of the values that were given under a name, the last was kept.
-/

namespace SiteLint.Json

/-! ### Values of one kind -/

def IsText (v : Json) (s : String) : Prop := v = text s

def IsFlag (v : Json) (b : Bool) : Prop := v = bool b

/-- A number that writes a count. -/
inductive IsCount : Json → Nat → Prop
  | num {n : Text.Numeral} {k : Nat} (h : n.count? = some k) : IsCount (num n) k

section

variable {α : Type} (Stands : Json → α → Prop)

/-- A value that may be null. -/
inductive Nullable : Json → Option α → Prop
  | null : Nullable null none
  | given {v : Json} {a : α} (hv : v ≠ null) (h : Stands v a) : Nullable v (some a)

/-- An array, item by item. -/
inductive Items : Json → List α → Prop
  | arr {vs : List Json} {as : List α} (h : List.Forall₂ Stands vs as) : Items (arr vs) as

end

/-! ### Fields -/

/-- A way to find what is given under a name, if anything is. -/
abbrev Lookup := String → Record Json → Option Json → Prop

/-- What is given under a name. -/
def under (name : String) (ms : Record Json) : List Json :=
  (ms.filter (·.1 = name)).map (·.2)

/-- A name is given once at most. -/
def Once (name : String) (ms : Record Json) (found : Option Json) : Prop :=
  under name ms = found.toList

/-- Of the values that are given under a name, the last counts. -/
def Last (name : String) (ms : Record Json) (found : Option Json) : Prop :=
  (under name ms).getLast? = found

/-- The fields of a record: the members of an object, or the items of an array under the names in
their order. -/
inductive Fields (names : List String) : Json → Record Json → Prop
  | named (ms : Record Json) : Fields names (record ms) ms
  | listed {vs : List Json} (h : vs.length ≤ names.length) : Fields names (arr vs) (names.zip vs)

section

variable {α : Type} (find : Lookup) (name : String) (Stands : Json → α → Prop)

/-- A field that has to be there. -/
def Required (ms : Record Json) (a : α) : Prop := ∃ v, find name ms (some v) ∧ Stands v a

/-- A field that has a value when it is absent. -/
def Defaulted (default : α) (ms : Record Json) (a : α) : Prop :=
  find name ms none ∧ a = default ∨ Required find name Stands ms a

end

/-! ### Readers -/

section

variable {α : Type} {read : Json → Option α} {Stands : Json → α → Prop} {name : String}
  {ms : Record Json} {found : Option Json}

/-- The reader takes what stands for something, for what it stands for. -/
def Reads (read : Json → Option α) (Stands : Json → α → Prop) : Prop :=
  ∀ v a, read v = some a ↔ Stands v a

lemma reads_text : Reads text? IsText := by
  intro v s
  cases v with
  | str t => cases t <;> simp [text?, IsText, text]
  | _ => simp [text?, IsText, text]

lemma reads_flag : Reads flag? IsFlag := by
  intro v b
  cases v <;> simp [flag?, IsFlag]

lemma reads_count : Reads count? IsCount := by
  intro v k
  cases v with
  | num n =>
    refine ⟨.num, fun h => ?_⟩
    cases h
    assumption
  | _ => constructor <;> rintro ⟨⟩

lemma reads_optional (h : Reads read Stands) : Reads (optional? read) (Nullable Stands) := by
  intro v a
  cases v with
  | null =>
    refine ⟨fun ha => ?_, fun ha => ?_⟩
    · cases ha
      exact .null
    · cases ha with
      | null => rfl
      | given hv => exact absurd rfl hv
  | _ =>
    simp only [optional?, Option.map_eq_some_iff]
    constructor
    · rintro ⟨b, hb, rfl⟩
      exact .given (by simp) ((h _ _).1 hb)
    · intro ha
      cases ha with
      | given _ hb => exact ⟨_, (h _ _).2 hb, rfl⟩

lemma reads_listOf (h : Reads read Stands) : Reads (listOf? read) (Items Stands) := by
  intro v as
  cases v with
  | arr vs =>
    have hmapM : listOf? read (arr vs) = some as ↔ List.Forall₂ Stands vs as := by
      rw [listOf?, items?, Option.bind_some, mapM_some_iff]
      simp only [h _ _]
    rw [hmapM]
    refine ⟨.arr, fun ha => ?_⟩
    cases ha with
    | arr ha => exact ha
  | _ => constructor <;> rintro ⟨⟩

lemma field_iff_once : Record.field? [name] ms = some found ↔ Once name ms found := by
  have hfilter : (ms.filter fun m => [name].contains m.1) = ms.filter (·.1 = name) :=
    List.filter_congr fun m _ => by simp
  rw [Record.field?, hfilter, Once, under]
  cases ms.filter (·.1 = name) with
  | nil => cases found <;> simp
  | cons m later => cases later <;> cases found <;> simp

lemma required_iff (h : Reads read Stands) {a : α} :
    required? name read ms = some a ↔ Required Once name Stands ms a := by
  simp only [required?, Option.bind_eq_bind, Option.bind_eq_some_iff, field_iff_once, Required]
  constructor
  · rintro ⟨_ | v, hfound, ha⟩
    · cases ha
    · exact ⟨v, hfound, (h _ _).1 ha⟩
  · rintro ⟨v, hfound, ha⟩
    exact ⟨some v, hfound, (h _ _).2 ha⟩

lemma withDefault_iff (h : Reads read Stands) {default a : α} :
    withDefault? name default read ms = some a ↔ Defaulted Once name Stands default ms a := by
  simp only [withDefault?, Option.bind_eq_bind, Option.bind_eq_some_iff, field_iff_once,
    Defaulted, Required]
  constructor
  · rintro ⟨_ | v, hfound, ha⟩
    · exact .inl ⟨hfound, (Option.some.inj ha).symm⟩
    · exact .inr ⟨v, hfound, (h _ _).1 ha⟩
  · rintro (⟨hfound, rfl⟩ | ⟨v, hfound, ha⟩)
    · exact ⟨none, hfound, rfl⟩
    · exact ⟨some v, hfound, (h _ _).2 ha⟩

lemma fields_iff {names : List String} {v : Json} :
    v.fields? names = some ms ↔ Fields names v ms := by
  constructor
  · intro h
    cases v with
    | arr vs =>
      simp only [fields?] at h
      split at h
      · cases h
        exact .listed ‹_›
      · cases h
    | obj fields =>
      have hmembers : (obj fields).members? = some ms := h
      rw [eq_record_of_members hmembers]
      exact .named ms
    | _ => cases h
  · intro h
    cases h with
    | named => exact fields_record names ms
    | listed h => exact if_pos h

lemma fields_record_iff {names : List String} {fields : Record Json} :
    Fields names (record fields) ms ↔ ms = fields := by
  rw [← fields_iff, fields_record, Option.some.injEq, eq_comm]

lemma fields_arr_iff {names : List String} {vs : List Json} :
    Fields names (arr vs) ms ↔ ms = names.zip vs ∧ vs.length ≤ names.length := by
  rw [← fields_iff, fields?]
  split <;> simp [*, eq_comm]

end

/-! ### Fields of what was kept whole -/

/-- What is kept of members with names. -/
def KeepsMembers (depth : Nat) (ms kept : Record Json) : Prop :=
  soundMembers? depth (ms.map fun (k, v) => (some k, v)) =
    some (kept.map fun (k, v) => (some k, v))

/-- What is kept of a value, by its outermost level. -/
inductive Keeps : Nat → Json → Json → Prop
  | null (depth : Nat) : Keeps depth null null
  | bool (depth : Nat) (b : Bool) : Keeps depth (bool b) (bool b)
  | num (depth : Nat) (n : Text.Numeral) : Keeps depth (num n) (num n)
  | text (depth : Nat) (s : String) : Keeps depth (text s) (text s)
  | arr {depth : Nat} {vs ws : List Json}
    (h : List.Forall₂ (fun v w => sound? depth v = some w) vs ws) :
    Keeps (depth + 1) (arr vs) (arr ws)
  | record {depth : Nat} {ms kept : Record Json} (h : KeepsMembers depth ms kept) :
    Keeps (depth + 1) (record ms) (record kept)

section

variable {depth : Nat} {v w : Json} {ms kept : Record Json} {name : String}
  {found : Option Json}

lemma exists_record {members : List (Key × Json)} (h : ∀ m ∈ members, m.1 ≠ none) :
    ∃ ms : Record Json, members = ms.map fun (k, v) => (some k, v) := by
  induction members with
  | nil => exact ⟨[], rfl⟩
  | cons m members ih =>
    obtain ⟨hm, hmembers⟩ := List.forall_mem_cons.1 h
    obtain ⟨ms, rfl⟩ := ih hmembers
    obtain ⟨_ | name, v⟩ := m
    · exact absurd rfl hm
    · exact ⟨(name, v) :: ms, rfl⟩

lemma keeps_of_sound (h : sound? depth v = some w) : Keeps depth v w := by
  cases v with
  | null =>
    cases h
    exact .null _
  | bool b =>
    cases h
    exact .bool _ b
  | num n =>
    simp only [sound?] at h
    split at h
    · cases h
    · cases h
      exact .num _ n
  | str t =>
    cases t with
    | none => cases h
    | some s =>
      cases h
      exact .text _ s
  | arr vs =>
    cases depth with
    | zero => cases h
    | succ depth =>
      obtain ⟨ws, hws, rfl⟩ := Option.map_eq_some_iff.1 h
      exact .arr (soundItems_some_iff.1 hws)
  | obj members =>
    cases depth with
    | zero => cases h
    | succ depth =>
      obtain ⟨keptMembers, hkept, rfl⟩ := Option.map_eq_some_iff.1 h
      have hsome : (soundMembers? depth members).isSome = true := by
        rw [show soundMembers? depth members = some keptMembers from hkept]
        rfl
      obtain ⟨ms, rfl⟩ := exists_record (isSome_soundMembers.1 hsome).1
      obtain ⟨kept, rfl⟩ := exists_of_soundMembers hkept
      exact .record hkept

lemma exists_keepsMembers_iff :
    (∃ kept, KeepsMembers depth ms kept) ↔ ∀ m ∈ ms, m.2.Keepable depth := by
  have hsome : (soundMembers? depth (ms.map fun (k, v) => (some k, v))).isSome = true ↔
      ∀ m ∈ ms, m.2.Keepable depth := by
    rw [isSome_soundMembers, List.forall_mem_map, List.forall_mem_map]
    simp [isSome_sound_iff]
  rw [← hsome, Option.isSome_iff_exists]
  constructor
  · rintro ⟨kept, h⟩
    exact ⟨_, h⟩
  · rintro ⟨members, h⟩
    obtain ⟨kept, rfl⟩ := exists_of_soundMembers h
    exact ⟨kept, h⟩

lemma soundMembers_same_name {members keptMembers : List (Key × Json)}
    (h : soundMembers? depth members = some keptMembers)
    (hname : ∀ m ∈ members, m.1 = some name) :
    members = [] ∧ keptMembers = [] ∨
      ∃ before v w, members = before ++ [(some name, v)] ∧ sound? depth v = some w ∧
        keptMembers = [(some name, w)] := by
  induction members generalizing keptMembers with
  | nil =>
    cases h
    exact .inl ⟨rfl, rfl⟩
  | cons m members ih =>
    obtain ⟨key, v⟩ := m
    obtain ⟨hkey, hmembers⟩ := List.forall_mem_cons.1 hname
    obtain rfl : key = some name := hkey
    rw [soundMembers_cons] at h
    obtain ⟨w, hw, h⟩ := Option.bind_eq_some_iff.1 h
    obtain ⟨later, hlater, rfl⟩ := Option.map_eq_some_iff.1 h
    rcases ih hlater hmembers with ⟨rfl, rfl⟩ | ⟨before, u, w', rfl, hw', rfl⟩
    · exact .inr ⟨[], v, w, rfl, hw, rfl⟩
    · exact .inr ⟨(some name, v) :: before, u, w', rfl, hw', by simp⟩

lemma under_of_keepsMembers (h : KeepsMembers depth ms kept) (name : String) :
    under name ms = [] ∧ under name kept = [] ∨
      ∃ before v w, under name ms = before ++ [v] ∧ sound? depth v = some w ∧
        under name kept = [w] := by
  have hunder (r : Record Json) : under name r =
      ((r.map fun (k, v) => (some k, v)).filter (·.1 = some name)).map (·.2) := by
    simp [under, List.filter_map, Function.comp_def]
  rw [hunder, hunder]
  have hfilter := soundMembers_filter h (· = some name)
  rcases soundMembers_same_name hfilter fun m hm => by simpa using (List.mem_filter.1 hm).2 with
    ⟨hms, hkept⟩ | ⟨before, v, w, hms, hw, hkept⟩
  · exact .inl ⟨by simp [hms], by simp [hkept]⟩
  · exact .inr ⟨before.map (·.2), v, w, by simp [hms], hw, by simp [hkept]⟩

lemma mem_under_iff : v ∈ under name ms ↔ (name, v) ∈ ms := by
  simp [under]

lemma under_eq_nil_iff : under name ms = [] ↔ name ∉ ms.map (·.1) := by
  rw [List.eq_nil_iff_forall_not_mem]
  simp [mem_under_iff]

lemma mem_names_of_keepsMembers (h : KeepsMembers depth ms kept) :
    name ∈ kept.map (·.1) ↔ name ∈ ms.map (·.1) := by
  rw [← not_iff_not, ← under_eq_nil_iff, ← under_eq_nil_iff]
  rcases under_of_keepsMembers h name with ⟨hms, hkept⟩ | ⟨before, v, w, hms, -, hkept⟩
  · simp [hms, hkept]
  · simp [hms, hkept]

lemma mem_keepsMembers_iff (h : KeepsMembers depth ms kept) :
    (name, w) ∈ kept ↔ ∃ v, Last name ms (some v) ∧ sound? depth v = some w := by
  rw [← mem_under_iff]
  simp only [Last]
  rcases under_of_keepsMembers h name with ⟨hms, hkept⟩ | ⟨before, v, w', hms, hw, hkept⟩
  · simp [hms, hkept]
  · simp [hms, hkept, hw, eq_comm]

lemma exists_sound_of_last (h : KeepsMembers depth ms kept) (hv : Last name ms (some v)) :
    ∃ w, sound? depth v = some w ∧ (name, w) ∈ kept := by
  rw [Last] at hv
  rcases under_of_keepsMembers h name with ⟨hms, -⟩ | ⟨before, u, w, hms, hw, hkept⟩
  · simp [hms] at hv
  · obtain rfl : u = v := by simpa [hms] using hv
    exact ⟨w, hw, mem_under_iff.1 (by simp [hkept])⟩

lemma names_of_keepsMembers_cons (h : KeepsMembers depth ((name, v) :: ms) kept) :
    ∃ later, KeepsMembers depth ms later ∧
      kept.map (·.1) = name :: (later.map (·.1)).filter (· ≠ name) := by
  rw [KeepsMembers, List.map_cons, soundMembers_cons] at h
  obtain ⟨w, -, h⟩ := Option.bind_eq_some_iff.1 h
  obtain ⟨members, hmembers, h⟩ := Option.map_eq_some_iff.1 h
  obtain ⟨later, rfl⟩ := exists_of_soundMembers hmembers
  refine ⟨later, hmembers, ?_⟩
  have hkeys := congrArg (List.map (·.1)) h
  have hinjective : Function.Injective (List.map (some : String → Option String)) :=
    (Option.some_injective _).list_map
  apply hinjective
  simpa [List.filter_map, Function.comp_def] using hkeys.symm

lemma pairwise_idxOf_of_keepsMembers (h : KeepsMembers depth ms kept) :
    (kept.map (·.1)).Pairwise fun a b =>
      (ms.map (·.1)).idxOf a < (ms.map (·.1)).idxOf b := by
  induction ms generalizing kept with
  | nil =>
    obtain rfl : kept = [] := by simpa [KeepsMembers, soundMembers?] using h
    exact .nil
  | cons m ms ih =>
    obtain ⟨name, v⟩ := m
    obtain ⟨later, hlater, hnames⟩ := names_of_keepsMembers_cons h
    rw [hnames, List.map_cons]
    refine .cons (fun other hother => ?_) ?_
    · have hne : other ≠ name := by simpa using (List.mem_filter.1 hother).2
      rw [List.idxOf_cons_self, List.idxOf_cons_ne _ hne.symm]
      exact Nat.succ_pos _
    · refine ((ih hlater).filter _).imp_of_mem fun {a b} ha hb hab => ?_
      have hane : a ≠ name := by simpa using (List.mem_filter.1 ha).2
      have hbne : b ≠ name := by simpa using (List.mem_filter.1 hb).2
      rw [List.idxOf_cons_ne _ hane.symm, List.idxOf_cons_ne _ hbne.symm]
      exact Nat.succ_lt_succ hab

lemma keepsMembers_zip {names : List String} (hnames : names.Nodup) {vs ws : List Json}
    (h : List.Forall₂ (fun v w => sound? depth v = some w) vs ws) :
    KeepsMembers depth (names.zip vs) (names.zip ws) := by
  have hsublist (names : List String) (vs : List Json) :
      ((names.zip vs).map (·.1)).Sublist names := by
    induction names generalizing vs with
    | nil => simp
    | cons name names ih =>
      cases vs with
      | nil => simp
      | cons v vs => exact (ih vs).cons_cons name
  refine soundMembers_of_nodup (hnames.sublist (hsublist names vs)) ?_
  · induction h generalizing names with
    | nil => simp
    | cons hv _ ih =>
      cases names with
      | nil => simp
      | cons name names => exact .cons ⟨rfl, hv⟩ (ih hnames.of_cons)

end

section

variable {α : Type}

/-- What a value stands for is what is kept of it stands for, in their own ways. -/
def Agree (Raw Kept : Json → α → Prop) : Prop :=
  ∀ ⦃depth v w⦄, sound? depth v = some w → ∀ a, Raw v a ↔ Kept w a

variable {Raw Kept : Json → α → Prop} {depth : Nat} {ms kept : Record Json} {name : String} {a : α}

lemma agree_text : Agree IsText IsText := by
  intro depth v w h s
  cases keeps_of_sound h <;> simp [IsText, text, record]

lemma agree_count : Agree IsCount IsCount := by
  intro depth v w h k
  cases keeps_of_sound h with
  | arr | record => constructor <;> rintro ⟨⟩
  | _ => rfl

lemma eq_null_iff_of_sound {v w : Json} (h : sound? depth v = some w) : v = null ↔ w = null := by
  cases keeps_of_sound h <;> simp [text, record]

lemma agree_nullable (h : Agree Raw Kept) : Agree (Nullable Raw) (Nullable Kept) := by
  intro depth v w hw a
  constructor
  · intro ha
    cases ha with
    | null =>
      rw [(eq_null_iff_of_sound hw).1 rfl]
      exact .null
    | given hv ha => exact .given (mt (eq_null_iff_of_sound hw).2 hv) ((h hw _).1 ha)
  · intro ha
    cases ha with
    | null =>
      rw [(eq_null_iff_of_sound hw).2 rfl]
      exact .null
    | given hv ha => exact .given (mt (eq_null_iff_of_sound hw).1 hv) ((h hw _).2 ha)

lemma agree_items (h : Agree Raw Kept) : Agree (Items Raw) (Items Kept) := by
  intro depth v w hw as
  cases keeps_of_sound hw with
  | @arr depth vs ws hws =>
    have hitems : List.Forall₂ Raw vs as ↔ List.Forall₂ Kept ws as := by
      clear hw
      induction hws generalizing as with
      | nil => rw [List.forall₂_nil_left_iff, List.forall₂_nil_left_iff]
      | cons hv _ ih =>
        cases as with
        | nil => simp
        | cons a as => rw [List.forall₂_cons, List.forall₂_cons, h hv, ih]
    constructor
    · intro ha
      cases ha with
      | arr ha => exact .arr (hitems.1 ha)
    · intro ha
      cases ha with
      | arr ha => exact .arr (hitems.2 ha)
  | _ => constructor <;> rintro ⟨⟩

lemma last_none_iff (hkept : KeepsMembers depth ms kept) :
    Last name ms none ↔ Once name kept none := by
  simp only [Last, Once]
  rcases under_of_keepsMembers hkept name with ⟨hms, hnone⟩ | ⟨before, v, w, hms, hw, hsome⟩
  · simp [hms, hnone]
  · simp [hms, hsome]

lemma required_last_iff (hkept : KeepsMembers depth ms kept) (h : Agree Raw Kept) :
    Required Last name Raw ms a ↔ Required Once name Kept kept a := by
  simp only [Required, Last, Once]
  rcases under_of_keepsMembers hkept name with ⟨hms, hnone⟩ | ⟨before, v, w, hms, hw, hsome⟩
  · simp [hms, hnone]
  · simp [hms, hsome, h hw a]

lemma defaulted_last_iff (hkept : KeepsMembers depth ms kept) (h : Agree Raw Kept) {default : α} :
    Defaulted Last name Raw default ms a ↔ Defaulted Once name Kept default kept a := by
  rw [Defaulted, Defaulted, required_last_iff hkept h, last_none_iff hkept]

lemma agree_fields {names : List String} (hnames : names.Nodup) {P Q : Record Json → α → Prop}
    (h : ∀ ⦃depth ms kept⦄, KeepsMembers depth ms kept → ∀ a, P ms a ↔ Q kept a) :
    Agree (fun v a => ∃ ms, Fields names v ms ∧ P ms a)
      (fun w a => ∃ kept, Fields names w kept ∧ Q kept a) := by
  intro depth v w hw a
  cases keeps_of_sound hw with
  | @arr depth vs ws hws =>
    simp only [fields_arr_iff, and_assoc, exists_eq_left, hws.length_eq]
    rw [h (keepsMembers_zip hnames hws)]
  | @record depth ms kept hkept =>
    simp only [fields_record_iff, exists_eq_left, h hkept]
  | _ => constructor <;> rintro ⟨_, ⟨⟩, -⟩

end

end SiteLint.Json
