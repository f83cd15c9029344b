import SiteLint.Json.Shape
import SiteLint.Proofs.DocumentGrammar
import SiteLint.Proofs.DocumentLookup
import SiteLint.Proofs.Results

/-!
Values inside a document.

A text that is read as a value is read as that value wherever it stands, because the reader never
looks at what is open around it. A value that is kept whole has to have texts for strings, numbers
that a double can hold, and no more levels than are left; nothing else is asked of it.
-/

namespace SiteLint.Json

/-! ### What is open around a value -/

namespace State

variable {s s' : State} {t : Token} {ts : List Token}

/-- The same state with more open around it. -/
def within (outer : List Frame) : State → State
  | value stack => value (stack ++ outer)
  | firstItem stack => firstItem (stack ++ outer)
  | firstKey stack => firstKey (stack ++ outer)
  | key ms stack => key ms (stack ++ outer)
  | colon ms k stack => colon ms k (stack ++ outer)
  | afterItem vs stack => afterItem vs (stack ++ outer)
  | afterMember ms stack => afterMember ms (stack ++ outer)
  | done v => complete v outer

lemma within_complete (outer : List Frame) (v : Json) (stack : List Frame) :
    (complete v stack).within outer = complete v (stack ++ outer) := by
  cases stack with
  | nil => rfl
  | cons frame stack => cases frame <;> rfl

lemma begin_within {stack : List Frame} (h : begin? stack t = some s') (outer : List Frame) :
    begin? (stack ++ outer) t = some (s'.within outer) := by
  cases t with
  | openArray | openObject =>
    cases h
    rfl
  | null | bool | num | str =>
    cases h
    exact congrArg some (within_complete outer _ stack).symm
  | closeArray | closeObject | comma | colon => cases h

/-- A step never depends on what is open around the value that is being read. -/
lemma step_within (h : s.step t = some s') (outer : List Frame) :
    (s.within outer).step t = some (s'.within outer) := by
  cases s with
  | value stack => exact begin_within h outer
  | firstItem stack =>
    cases t with
    | closeArray =>
      cases h
      exact congrArg some (within_complete outer _ stack).symm
    | _ =>
      simp only [step] at h
      exact begin_within h outer
  | firstKey stack =>
    cases t with
    | closeObject =>
      cases h
      exact congrArg some (within_complete outer _ stack).symm
    | str =>
      cases h
      rfl
    | _ => cases h
  | key ms stack =>
    cases t with
    | str =>
      cases h
      rfl
    | _ => cases h
  | colon ms k stack =>
    cases t with
    | colon =>
      cases h
      rfl
    | _ => cases h
  | afterItem vs stack =>
    cases t with
    | comma =>
      cases h
      rfl
    | closeArray =>
      cases h
      exact congrArg some (within_complete outer _ stack).symm
    | _ => cases h
  | afterMember ms stack =>
    cases t with
    | comma =>
      cases h
      rfl
    | closeObject =>
      cases h
      exact congrArg some (within_complete outer _ stack).symm
    | _ => cases h
  | done v => cases h

lemma leads_within (h : s.Leads ts s') (outer : List Frame) :
    (s.within outer).Leads ts (s'.within outer) := by
  induction ts generalizing s with
  | nil =>
    obtain rfl : s = s' := Option.some.inj h
    exact .nil _
  | cons t ts ih =>
    rw [Leads, List.foldlM_cons] at h
    obtain ⟨s₁, hstep, hrest⟩ := Option.bind_eq_some_iff.1 h
    exact .cons (step_within hstep outer) (ih hrest)

end State

lemma Part.legible_of_read {v : Json} {cs : List Char} (h : read? cs = some v) :
    (element v).Legible cs := by
  obtain ⟨ts, hts, hread⟩ := Option.bind_eq_some_iff.1 h
  refine ⟨ts, hts, fun stack => ?_⟩
  have hdone : (State.value []).Leads ts (.done v) := by
    unfold ofTokens? at hread
    split at hread
    · cases hread
      assumption
    · cases hread
  exact State.leads_within hdone stack

/-- The ways to write members whose values are read from the texts they are written in. -/
inductive Lists : List (String × Json) → List Char → Prop
  | none {gap : List Char} (h : Gap gap) : Lists [] gap
  | one {k : String} {v : Json} {before name between cs : List Char} (hbefore : Gap before)
    (hname : Quoted k name) (hbetween : Gap between) (h : read? cs = some v) :
    Lists [(k, v)] (before ++ (name ++ (between ++ ':' :: cs)))
  | more {m n : String × Json} {ms : List (String × Json)} {cs later : List Char}
    (h : Lists [m] cs) (hlater : Lists (n :: ms) later) : Lists (m :: n :: ms) (cs ++ ',' :: later)

namespace Lists

variable {ms : List (String × Json)} {cs : List Char}

lemma legible (h : Lists ms cs) : (Part.members ms).Legible cs := by
  induction h with
  | none h => exact ⟨[], tokens_of_gap h, rfl⟩
  | one hbefore hname hbetween h =>
    exact Part.legible_member hbefore hname hbetween (Part.legible_of_read h)
  | more _ _ ih ihlater => exact Part.legible_members ih ihlater

lemma read (h : Lists ms cs) {before after : List Char} (hbefore : Gap before)
    (hafter : Gap after) :
    read? (before ++ ('\x7b' :: (cs ++ ['\x7d']) ++ after)) = some (record ms) :=
  Part.read_of_legible (Part.legible_element hbefore (Part.legible_record h.legible) hafter)

end Lists

lemma record_injective : Function.Injective record := by
  intro ms ns h
  have hnames : Function.Injective fun m : String × Json => ((some m.1, m.2) : Key × Json) := by
    rintro ⟨k, v⟩ ⟨k', v'⟩ hm
    simpa using hm
  exact hnames.list_map (obj.inj h)

lemma Written.braces {ms : List (String × Json)} {cs : List Char}
    (h : Written (.value (.record ms)) cs) :
    ∃ inner, Written (.members ms) inner ∧ cs = '\x7b' :: (inner ++ ['\x7d']) := by
  generalize hpart : Part.value (.record ms) = part at h
  cases h with
  | record h =>
    obtain rfl := record_injective (Part.value.inj hpart)
    exact ⟨_, h, rfl⟩
  | _ => simp [Json.nat, Json.text, Json.record] at hpart

lemma Lists.of_written {ms : List (String × Json)} {cs : List Char}
    (h : Written (.members ms) cs) : Lists ms cs := by
  generalize hpart : Part.members ms = part at h
  induction h generalizing ms with
  | noMember hgap =>
    obtain rfl := Part.members.inj hpart
    exact .none hgap
  | member hbefore hname hbetween h =>
    obtain rfl := Part.members.inj hpart
    exact .one hbefore hname hbetween (Part.read_of_legible h.legible)
  | members _ _ ih ihlater =>
    obtain rfl := Part.members.inj hpart
    exact .more (ih rfl) (ihlater rfl)
  | _ => cases hpart

/-! ### Values that are kept whole -/

/-- The value can be kept whole when `depth` more levels may be opened. -/
inductive Keepable : Nat → Json → Prop
  | null (depth : Nat) : Keepable depth null
  | bool (depth : Nat) (b : Bool) : Keepable depth (bool b)
  | num (depth : Nat) {n : Text.Numeral} (h : n.overflows = false) : Keepable depth (num n)
  | text (depth : Nat) (s : String) : Keepable depth (text s)
  | arr {depth : Nat} {vs : List Json} (h : ∀ v ∈ vs, Keepable depth v) :
    Keepable (depth + 1) (arr vs)
  | obj {depth : Nat} {ms : List (Key × Json)} (hnames : ∀ m ∈ ms, m.1 ≠ none)
    (h : ∀ m ∈ ms, Keepable depth m.2) : Keepable (depth + 1) (obj ms)

lemma soundItems_some_iff {depth : Nat} {vs ws : List Json} :
    soundItems? depth vs = some ws ↔ List.Forall₂ (fun v w => sound? depth v = some w) vs ws := by
  have hmapM : soundItems? depth vs = vs.mapM (sound? depth) := by
    induction vs with
    | nil => rfl
    | cons v vs ih =>
      rw [soundItems?, List.mapM_cons, ih]
      rfl
  rw [hmapM, mapM_some_iff]

lemma isSome_soundItems {depth : Nat} {vs : List Json} :
    (soundItems? depth vs).isSome = true ↔ ∀ v ∈ vs, (sound? depth v).isSome = true := by
  induction vs with
  | nil => simp [soundItems?]
  | cons v vs ih =>
    rw [List.forall_mem_cons, ← ih, soundItems?]
    cases sound? depth v <;> cases soundItems? depth vs <;> simp

lemma isSome_soundMembers {depth : Nat} {ms : List (Key × Json)} :
    (soundMembers? depth ms).isSome = true ↔
      (∀ m ∈ ms, m.1 ≠ none) ∧ ∀ m ∈ ms, (sound? depth m.2).isSome = true := by
  induction ms with
  | nil => simp [soundMembers?]
  | cons m ms ih =>
    obtain ⟨key, v⟩ := m
    rw [List.forall_mem_cons, List.forall_mem_cons, and_and_and_comm, ← ih, soundMembers?]
    cases key with
    | none => simp
    | some name =>
      cases sound? depth v with
      | none => simp
      | some w =>
        cases soundMembers? depth ms with
        | none => simp
        | some kept =>
          simp only [Option.bind_eq_bind, Option.bind_some]
          split <;> simp

lemma isSome_sound_iff (depth : Nat) (v : Json) :
    (sound? depth v).isSome = true ↔ v.Keepable depth := by
  match depth, v with
  | _, .null => exact iff_of_true rfl (.null _)
  | _, .bool b => exact iff_of_true rfl (.bool _ b)
  | _, .str (some s) => exact iff_of_true rfl (.text _ s)
  | _, .str none => exact iff_of_false (by simp [sound?]) nofun
  | _, .num n =>
    cases hn : n.overflows with
    | false => exact iff_of_true (by simp [sound?, hn]) (.num _ hn)
    | true =>
      refine iff_of_false (by simp [sound?, hn]) fun h => ?_
      cases h with
      | num _ h => simp [hn] at h
  | 0, .arr vs => exact iff_of_false (by simp [sound?]) nofun
  | 0, .obj ms => exact iff_of_false (by simp [sound?]) nofun
  | depth + 1, .arr vs =>
    have hitems : (sound? (depth + 1) (.arr vs)).isSome = true ↔ ∀ v ∈ vs, v.Keepable depth := by
      simp [sound?, isSome_soundItems, isSome_sound_iff depth]
    rw [hitems]
    refine ⟨.arr, fun h => ?_⟩
    cases h with
    | arr h => exact h
  | depth + 1, .obj ms =>
    have hmembers : (sound? (depth + 1) (.obj ms)).isSome = true ↔
        (∀ m ∈ ms, m.1 ≠ none) ∧ ∀ m ∈ ms, m.2.Keepable depth := by
      simp [sound?, isSome_soundMembers, isSome_sound_iff depth]
    rw [hmembers]
    refine ⟨fun ⟨hnames, h⟩ => .obj hnames h, fun h => ?_⟩
    cases h with
    | obj hnames h => exact ⟨hnames, h⟩

lemma soundMembers_cons (depth : Nat) (name : String) (v : Json) (ms : List (Key × Json)) :
    soundMembers? depth ((some name, v) :: ms) =
      (sound? depth v).bind fun w => (soundMembers? depth ms).map fun later =>
        (some name, (later.find? (·.1 = some name)).elim w (·.2)) ::
          later.filter (·.1 ≠ some name) := by
  rw [soundMembers?]
  cases sound? depth v with
  | none => rfl
  | some w =>
    cases soundMembers? depth ms with
    | none => rfl
    | some later =>
      simp only [Option.bind_eq_bind, Option.bind_some, Option.map_some]
      cases hfind : later.find? (·.1 = some name) with
      | some m => rfl
      | none =>
        have hother : later.filter (·.1 ≠ some name) = later := by
          refine List.filter_eq_self.2 fun m hm => ?_
          simpa using List.find?_eq_none.1 hfind m hm
        simp only [hother, Option.elim_none]

lemma exists_of_soundMembers {depth : Nat} {ms kept : List (Key × Json)}
    (h : soundMembers? depth ms = some kept) :
    ∃ r : Record Json, kept = r.map fun (k, v) => (some k, v) := by
  induction ms generalizing kept with
  | nil =>
    cases h
    exact ⟨[], rfl⟩
  | cons m ms ih =>
    obtain ⟨_ | name, v⟩ := m
    · simp [soundMembers?] at h
    · rw [soundMembers_cons] at h
      obtain ⟨w, -, h⟩ := Option.bind_eq_some_iff.1 h
      obtain ⟨later, hlater, rfl⟩ := Option.map_eq_some_iff.1 h
      obtain ⟨r, rfl⟩ := ih hlater
      exact ⟨(name, ((r.map fun (k, v) => (some k, v)).find? (·.1 = some name)).elim w (·.2)) ::
        r.filter (·.1 ≠ name), by simp [List.filter_map, Function.comp_def]⟩

lemma nodup_soundMembers {depth : Nat} {ms kept : List (Key × Json)}
    (h : soundMembers? depth ms = some kept) : (kept.map (·.1)).Nodup := by
  induction ms generalizing kept with
  | nil =>
    cases h
    exact List.nodup_nil
  | cons m ms ih =>
    obtain ⟨_ | name, v⟩ := m
    · simp [soundMembers?] at h
    · rw [soundMembers_cons] at h
      obtain ⟨w, -, h⟩ := Option.bind_eq_some_iff.1 h
      obtain ⟨later, hlater, rfl⟩ := Option.map_eq_some_iff.1 h
      rw [List.map_cons, List.nodup_cons]
      exact ⟨by simp, (ih hlater).sublist (List.filter_sublist.map _)⟩

lemma soundMembers_filter {depth : Nat} {ms kept : List (Key × Json)}
    (h : soundMembers? depth ms = some kept) (p : Key → Bool) :
    soundMembers? depth (ms.filter fun m => p m.1) = some (kept.filter fun m => p m.1) := by
  induction ms generalizing kept with
  | nil =>
    cases h
    rfl
  | cons m ms ih =>
    obtain ⟨_ | name, v⟩ := m
    · simp [soundMembers?] at h
    · rw [soundMembers_cons] at h
      obtain ⟨w, hw, h⟩ := Option.bind_eq_some_iff.1 h
      obtain ⟨later, hlater, rfl⟩ := Option.map_eq_some_iff.1 h
      cases hp : p (some name) with
      | false =>
        have hother : (later.filter (·.1 ≠ some name)).filter (fun m => p m.1) =
            later.filter fun m => p m.1 := by
          rw [List.filter_filter]
          refine List.filter_congr fun m _ => ?_
          by_cases hm : m.1 = some name <;> simp [hm, hp]
        rw [List.filter_cons_of_neg (by simp [hp]), List.filter_cons_of_neg (by simp [hp]),
          hother, ih hlater]
      | true =>
        have hfind : (later.filter fun m => p m.1).find? (·.1 = some name) =
            later.find? (·.1 = some name) := by
          rw [List.find?_filter]
          congr 1
          funext m
          by_cases hm : m.1 = some name <;> simp [hm, hp]
        rw [List.filter_cons_of_pos (by simp [hp]), List.filter_cons_of_pos (by simp [hp]),
          soundMembers_cons, hw, ih hlater, List.filter_comm]
        simp only [Option.bind_some, Option.map_some, hfind]

lemma soundMembers_of_nodup {depth : Nat} {ms kept : Record Json}
    (hnames : (ms.map (·.1)).Nodup)
    (h : List.Forall₂ (fun m k => m.1 = k.1 ∧ sound? depth m.2 = some k.2) ms kept) :
    soundMembers? depth (ms.map fun (k, v) => (some k, v)) =
      some (kept.map fun (k, v) => (some k, v)) := by
  induction h with
  | nil => rfl
  | @cons m k ms kept hm h ih =>
    obtain ⟨name, v⟩ := m
    obtain ⟨rfl, hv⟩ := hm
    rw [List.map_cons, List.nodup_cons] at hnames
    have hsame : ms.map (·.1) = kept.map (·.1) := by
      rw [← List.forall₂_eq_eq_eq, List.forall₂_map_left_iff, List.forall₂_map_right_iff]
      exact h.imp fun _ _ hmk => hmk.1
    have hne : ∀ m ∈ kept.map fun (k, v) => (some k, v), m.1 ≠ some k.1 := by
      refine List.forall_mem_map.2 fun m hm hname => hnames.1 ?_
      rw [hsame]
      exact List.mem_map.2 ⟨m, hm, Option.some.inj hname⟩
    have hfind : (kept.map fun (k, v) => (some k, v)).find? (·.1 = some k.1) = none :=
      List.find?_eq_none.2 fun m hm => by simpa using hne m hm
    have hother : (kept.map fun (k, v) => (some k, v)).filter (·.1 ≠ some k.1) =
        kept.map fun (k, v) => (some k, v) :=
      List.filter_eq_self.2 fun m hm => by simpa using hne m hm
    rw [List.map_cons, soundMembers_cons, hv, ih hnames.2]
    simp only [Option.bind_some, Option.map_some, hfind, hother, Option.elim_none, List.map_cons]

lemma soundMembers_record {depth : Nat} {ms : Record Json} (hnames : (ms.map (·.1)).Nodup)
    (h : ∀ m ∈ ms, sound? depth m.2 = some m.2) :
    soundMembers? depth (ms.map fun (k, v) => (some k, v)) =
      some (ms.map fun (k, v) => (some k, v)) :=
  soundMembers_of_nodup hnames (List.forall₂_same.2 fun m hm => ⟨rfl, h m hm⟩)

lemma sound_record {depth : Nat} {ms : Record Json} (hnames : (ms.map (·.1)).Nodup)
    (h : ∀ m ∈ ms, sound? depth m.2 = some m.2) :
    sound? (depth + 1) (record ms) = some (record ms) := by
  simp [record, sound?, soundMembers_record hnames h]

lemma sound_arr {depth : Nat} {vs : List Json} (h : ∀ v ∈ vs, sound? depth v = some v) :
    sound? (depth + 1) (arr vs) = some (arr vs) := by
  have hitems : soundItems? depth vs = some vs :=
    soundItems_some_iff.2 (List.forall₂_same.2 h)
  simp [sound?, hitems]

/-! ### Counts and texts -/

lemma count_nat {n : Nat} (h : n < Text.countBound) : (nat n).count? = some n := by
  simp [count?, nat, Text.Numeral.ofNat, Text.Numeral.count?, Text.Numeral.isWhole,
    Text.readCount, readDigits_toDigits, h]

lemma optional_text (s : Option String) :
    optional? text? (s.elim null text) = some s := by
  cases s <;> rfl

lemma overflows_ofNat {n : Nat} (h : n < Text.countBound) :
    (Text.Numeral.ofNat n).overflows = false := by
  have hscale : (Text.Numeral.ofNat n).scale = 0 := rfl
  have hsignificand : (Text.Numeral.ofNat n).significand = n := by
    have hread := readDigits_toDigits n
    rw [Text.readDigits, if_neg (by simp)] at hread
    simp [Text.Numeral.significand, Text.Numeral.ofNat, hread]
  have hbound : Text.countBound < Text.Numeral.overflowBound := by decide +kernel
  have hnot : ¬ Text.Numeral.overflowBound ≤ n * Nat.pow 10 (0 : Int).toNat := by
    have hone : n * Nat.pow 10 (0 : Int).toNat = n := Nat.mul_one n
    omega
  simp only [Text.Numeral.overflows, hscale, hsignificand, hnot, decide_false]
  simp

lemma sound_nat {n : Nat} (h : n < Text.countBound) (depth : Nat) :
    sound? depth (nat n) = some (nat n) := by
  simp [sound?, nat, overflows_ofNat h]

end SiteLint.Json
