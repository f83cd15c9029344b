import SiteLint.Json.Writer
import SiteLint.Proofs.DocumentGrammar

/-!
Reading back what was written as JSON.

The writer keeps to the grammar. It escapes what cannot stand for itself, and it puts nothing but
spaces and line ends around the parts of a value.
-/

namespace SiteLint.Json

/-! ### Strings -/

lemma unescape_escapeLetter {c l : Char} (h : escapeLetter? c = some l) : unescape? l = some c := by
  unfold escapeLetter? at h
  split at h
  case h_8 => cases h
  all_goals
    cases h
    rfl

lemma readDigits_unit : ∀ n < 0x20,
    Text.readDigits 16 ['0', '0', Nat.digitChar (n / 16), Nat.digitChar (n % 16)] = some n := by
  decide

lemma escapes_escapeChar (c : Char) {cs body : List Char} (h : Escapes cs body) :
    Escapes (c :: cs) (escapeChar c ++ body) := by
  unfold escapeChar
  cases hletter : escapeLetter? c with
  | some l => exact .letter (unescape_escapeLetter hletter) h
  | none =>
    dsimp only
    split
    · rename_i hlow
      exact .number (.digits (readDigits_unit c.toNat hlow)) h
    · rename_i hlow
      have hquote : c ≠ '"' := by
        rintro rfl
        simp [escapeLetter?] at hletter
      have hbackslash : c ≠ '\\' := by
        rintro rfl
        simp [escapeLetter?] at hletter
      exact .plain hquote hbackslash (by omega) h

lemma quoted_quotedKey (s : String) : Quoted s (quotedKey (some s)) := by
  have hbody (cs : List Char) : Escapes cs (cs.flatMap escapeChar) := by
    induction cs with
    | nil => exact .nil
    | cons c cs ih => exact escapes_escapeChar c ih
  exact .quotes (hbody s.toList)

/-! ### Values -/

lemma Gap.nil : Gap [] := List.forall_mem_nil _

lemma Gap.one {c : Char} (h : isSpace c = true) : Gap [c] := List.forall_mem_singleton.2 h

lemma Gap.indent {gap : List Char} (h : Gap gap) (level : Nat) : Gap (gap ++ indent level) := by
  rw [Gap, List.forall_mem_append]
  refine ⟨h, fun c hc => ?_⟩
  rw [List.eq_of_mem_replicate hc]
  rfl

/-- The writer keeps to the grammar, on a line of any level. -/
def Regular (v : Json) : Prop := ∀ level, Written (.value v) (write level v)

section

variable {before after : List Char}

lemma written_writeItems {v : Json} {vs : List Json} (h : ∀ w ∈ v :: vs, Regular w) (level : Nat)
    (hbefore : Gap before) (hafter : Gap after) :
    Written (.items (v :: vs)) (before ++ (writeItems level (v :: vs) ++ after)) := by
  induction vs generalizing v before with
  | nil =>
    have hv := Written.element (hbefore.indent level) (h v (by simp) level) hafter
    simpa [writeItems] using Written.item hv
  | cons w vs ih =>
    rw [List.forall_mem_cons] at h
    have hv := Written.element (hbefore.indent level) (h.1 level) .nil
    have hlater := ih h.2 (.one (c := '\n') (by decide))
    simpa [writeItems] using Written.items hv hlater

lemma written_writeMember {k : String} {v : Json} (h : Regular v) (level : Nat)
    (hbefore : Gap before) (hafter : Gap after) :
    Written (.members [(k, v)]) (before ++
      (indent level ++ (quotedKey (some k) ++ ':' :: ' ' :: (write level v ++ after)))) := by
  have hv := Written.element (.one (c := ' ') (by decide)) (h level) hafter
  simpa using Written.member (hbefore.indent level) (quoted_quotedKey k) .nil hv

lemma written_writeMembers {m : String × Json} {ms : List (String × Json)}
    (h : ∀ n ∈ m :: ms, Regular n.2) (level : Nat) (hbefore : Gap before) (hafter : Gap after) :
    Written (.members (m :: ms))
      (before ++ (writeMembers level ((m :: ms).map fun (k, v) => (some k, v)) ++ after)) := by
  induction ms generalizing m before with
  | nil => simpa [writeMembers] using written_writeMember (h m (by simp)) level hbefore hafter
  | cons n ms ih =>
    rw [List.forall_mem_cons] at h
    have hm := written_writeMember (k := m.1) h.1 level hbefore .nil
    have hlater := ih h.2 (.one (c := '\n') (by decide))
    simpa [writeMembers] using Written.members hm hlater

end

lemma regular_arr {vs : List Json} (h : ∀ v ∈ vs, Regular v) : Regular (arr vs) := by
  intro level
  cases vs with
  | nil => exact .arr (.noItem .nil)
  | cons v vs =>
    have hline : Gap ['\n'] := .one (by decide)
    have hitems := written_writeItems h (level + 1) hline (hline.indent level)
    simpa [write] using Written.arr hitems

lemma regular_record {ms : List (String × Json)} (h : ∀ m ∈ ms, Regular m.2) :
    Regular (record ms) := by
  intro level
  cases ms with
  | nil => exact .record (.noMember .nil)
  | cons m ms =>
    have hline : Gap ['\n'] := .one (by decide)
    have hmembers := written_writeMembers h (level + 1) hline (hline.indent level)
    simpa [write, record] using Written.record hmembers

/-- The values that a document is made of: numbers are whole, and texts and names are there. -/
inductive Plain : Json → Prop
  | null : Plain null
  | bool (b : Bool) : Plain (bool b)
  | nat (n : Nat) : Plain (nat n)
  | text (s : String) : Plain (text s)
  | arr (vs : List Json) (items : ∀ v ∈ vs, Plain v) : Plain (arr vs)
  | record (ms : List (String × Json)) (members : ∀ m ∈ ms, Plain m.2) : Plain (record ms)

lemma Plain.optional (text : Option String) : (text.elim Json.null Json.text).Plain := by
  cases text with
  | none => exact .null
  | some text => exact .text text

lemma Plain.regular {v : Json} (h : v.Plain) : v.Regular := by
  induction h with
  | null => exact fun level => .null
  | bool b =>
    intro level
    cases b with
    | false => exact .false
    | true => exact .true
  | nat n =>
    intro level
    have hwrite : write level (.nat n) = Nat.toDigits 10 n := by
      simp [write, Json.nat, writeNumeral, Text.Numeral.ofNat]
    rw [hwrite]
    exact .nat n
  | text s => exact fun level => .text (quoted_quotedKey s)
  | arr vs _ ih => exact regular_arr ih
  | record ms _ ih => exact regular_record ih

/-- **Round trip.** What was written is read back. -/
lemma Plain.read_write {v : Json} (h : v.Plain) (level : Nat) : read? (write level v) = some v :=
  (h.regular level).read

end SiteLint.Json
