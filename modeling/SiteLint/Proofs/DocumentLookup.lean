import Mathlib
import SiteLint.Json.Shape

/-!
Looking up the values in a document by their names.
-/

namespace SiteLint

namespace Json

lemma members_record (ms : Record Json) : (record ms).members? = some ms := by
  simp only [record, members?, List.mapM_map]
  induction ms with
  | nil => rfl
  | cons m ms ih => simp [ih]

lemma fields_record (names : List String) (ms : Record Json) :
    (record ms).fields? names = some ms :=
  members_record ms

lemma eq_record_of_members {v : Json} {ms : Record Json} (h : v.members? = some ms) :
    v = record ms := by
  cases v with
  | obj fields =>
    simp only [members?] at h
    rw [record, obj.injEq]
    induction fields generalizing ms with
    | nil =>
      cases h
      rfl
    | cons field fields ih =>
      obtain ⟨key, v⟩ := field
      simp only [List.mapM_cons, Option.bind_eq_bind, Option.bind_eq_some_iff] at h
      obtain ⟨m, hm, rest, hrest, h⟩ := h
      obtain ⟨name, hkey, rfl⟩ := Option.map_eq_some_iff.1 hm
      cases h
      simp [hkey, ← ih hrest]
  | _ => cases h

/-- The value that an object has under a name. -/
def get? (name : String) (v : Json) : Option Json := v.members?.bind (List.lookup name)

/-- The items of the array that an object has under a name. -/
def itemsUnder (name : String) (v : Json) : List Json := ((v.get? name).bind items?).getD []

@[simp] lemma get_record (name : String) (ms : Record Json) :
    (record ms).get? name = ms.lookup name := by
  simp [get?, members_record]

lemma itemsUnder_record {name : String} {ms : Record Json} {vs : List Json}
    (h : ms.lookup name = some (.arr vs)) : (record ms).itemsUnder name = vs := by
  simp [itemsUnder, h, items?]

end Json

lemma Record.field_between {α : Type} {name : String} {v : α} {before after : Record α}
    (h : name ∉ (before ++ after).map (·.1)) :
    field? [name] (before ++ (name, v) :: after) = some (some v) := by
  have hnone : ∀ ms : Record α, name ∉ ms.map (·.1) →
      ms.filter (fun m => [name].contains m.1) = [] := by
    intro ms hms
    rw [List.filter_eq_nil_iff]
    rintro m hm hname
    obtain rfl : m.1 = name := by simpa using hname
    exact hms (List.mem_map_of_mem hm)
  rw [List.map_append, List.mem_append, not_or] at h
  rw [field?, List.filter_append, hnone before h.1, List.filter_cons_of_pos (by simp),
    hnone after h.2]
  rfl

/-! ### Fields one by one -/

namespace Record

variable {α : Type} {name other : String} {v : α} {ms : Record α}

lemma field_cons_self (h : name ∉ ms.map (·.1)) : field? [name] ((name, v) :: ms) = some (some v) :=
  @field_between α name v [] ms h

lemma field_cons_ne (h : other ≠ name) : field? [name] ((other, v) :: ms) = field? [name] ms := by
  rw [field?, field?, List.filter_cons_of_neg (by simpa using h)]

lemma lookup_of_field {found : Option α} (h : field? [name] ms = some found) :
    ms.lookup name = found := by
  induction ms with
  | nil =>
    cases h
    rfl
  | cons m ms ih =>
    obtain ⟨other, v⟩ := m
    by_cases hname : other = name
    · subst hname
      rw [List.lookup_cons_self]
      rw [field?, List.filter_cons_of_pos (by simp)] at h
      generalize ms.filter _ = later at h
      cases later with
      | nil => exact Option.some.inj h
      | cons m later => cases h
    · rw [field_cons_ne hname] at h
      rw [List.lookup_cons, beq_false_of_ne (Ne.symm hname)]
      exact ih h

end Record

namespace Json

variable {α : Type} {name other : String} {default : α} {read : Json → Option α} {v : Json}
  {ms : Record Json}

@[simp] lemma text_text (s : String) : (text s).text? = some s := rfl

@[simp] lemma required_cons_self (h : name ∉ ms.map (·.1)) :
    required? name read ((name, v) :: ms) = read v := by
  rw [required?, Record.field_cons_self h]
  rfl

@[simp] lemma required_cons_ne (h : other ≠ name) :
    required? name read ((other, v) :: ms) = required? name read ms := by
  rw [required?, required?, Record.field_cons_ne h]

@[simp] lemma withDefault_nil : withDefault? name default read [] = some default := rfl

@[simp] lemma withDefault_cons_self (h : name ∉ ms.map (·.1)) :
    withDefault? name default read ((name, v) :: ms) = read v := by
  rw [withDefault?, Record.field_cons_self h]
  rfl

@[simp] lemma withDefault_cons_ne (h : other ≠ name) :
    withDefault? name default read ((other, v) :: ms) = withDefault? name default read ms := by
  rw [withDefault?, withDefault?, Record.field_cons_ne h]

lemma of_withDefault {a : α} (h : withDefault? name default read ms = some a) :
    ms.lookup name = none ∧ a = default ∨
      ∃ v, ms.lookup name = some v ∧ read v = some a := by
  obtain ⟨found, hfound, h⟩ := Option.bind_eq_some_iff.1 h
  rw [Record.lookup_of_field hfound]
  cases found with
  | none => exact .inl ⟨rfl, (Option.some.inj h).symm⟩
  | some v => exact .inr ⟨v, rfl, h⟩

/-- A value, unless it is null. -/
def present? : Json → Option Json
  | null => none
  | v => some v

lemma optional_eq (v : Json) :
    optional? read v = v.present?.elim (some none) fun v => (read v).map some := by
  cases v <;> rfl

lemma listOf_map_eq {β γ : Type} {read : Json → Option γ} {write : β → Json} {f : β → γ}
    {xs : List β} (h : ∀ x ∈ xs, read (write x) = some (f x)) :
    (arr (xs.map write)).listOf? read = some (xs.map f) := by
  rw [listOf?, items?, Option.bind_some, List.mapM_map]
  induction xs with
  | nil => rfl
  | cons x xs ih =>
    obtain ⟨hx, hxs⟩ := List.forall_mem_cons.1 h
    rw [List.mapM_cons, ih hxs, Function.comp_apply, hx]
    rfl

lemma listOf_map {β : Type} {read : Json → Option β} {write : β → Json}
    (h : ∀ x, read (write x) = some x) (xs : List β) :
    (arr (xs.map write)).listOf? read = some xs := by
  have hmap := listOf_map_eq (f := id) fun x (_ : x ∈ xs) => h x
  rwa [List.map_id] at hmap

end Json

end SiteLint
