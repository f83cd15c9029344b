import SiteLint.Proofs.ShownPath

/-!
Reports with colours and without.

A style puts escape sequences around a text. When these are deleted again, each line reads as the
plain one does. It makes no difference what stands in the working directory: nothing of its names is
shown.
-/

namespace SiteLint

/-! ### Bytes of shown paths -/

namespace Path

variable {p wd : Path} {cs : List Component} {x : UInt8}

lemma mem_bytes_of_mem_components {c : Component} (h : c ∈ p.components) (hx : x ∈ c.bytes) :
    x ∈ p.bytes ∨ x = slash ∨ x = dot := by
  have hpiece {piece : List UInt8} (hp : piece ∈ p.pieces) (hc : Component.ofPiece? piece = some c) :
      x ∈ p.bytes := by
    have hbytes := Component.bytes_of_piece hc
    have hsublist : (Text.glue slash [piece]).Sublist (Text.glue slash p.pieces) :=
      Text.glue_sublist (List.singleton_sublist.2 hp)
    rw [pieces, Text.glue_splitAt] at hsublist
    exact hsublist.subset (hbytes ▸ hx)
  rw [components, List.mem_append] at h
  rcases h with h | h
  · split at h
    · obtain rfl := List.mem_singleton.1 h
      exact .inr (.inl (List.mem_singleton.1 hx))
    · split at h
      · obtain rfl := List.mem_singleton.1 h
        exact .inr (.inr (List.mem_singleton.1 hx))
      · cases h
  · obtain ⟨piece, hmem, hc⟩ := List.mem_filterMap.1 h
    exact .inl (hpiece hmem hc)

lemma mem_stepsFrom {together : Bool} {path base : List Component} {c : Component}
    (h : stepsFrom together path base = some cs) (hc : c ∈ cs) : c = .up ∨ c ∈ path := by
  fun_induction stepsFrom together path base generalizing cs with
  | case1 =>
    cases h
    cases hc
  | case2 =>
    cases h
    exact .inr hc
  | case3 _ _ base ih =>
    obtain ⟨ds, hds, rfl⟩ := Option.map_eq_some_iff.1 h
    rcases List.mem_cons.1 hc with rfl | hc
    · exact .inl rfl
    · exact ih hds hc
  | case4 together a path b base hsame ih => exact (ih h hc).imp_right (List.mem_cons_of_mem a)
  | case5 together a path base hpart ih =>
    obtain ⟨ds, hds, rfl⟩ := Option.map_eq_some_iff.1 h
    rcases List.mem_cons.1 hc with rfl | hc
    · exact .inr List.mem_cons_self
    · exact (ih hds hc).imp_right (List.mem_cons_of_mem a)
  | case6 => cases h
  | case7 together a path b base hpart hhere hup =>
    cases h
    rcases List.mem_append.1 hc with hc | hc
    · left
      rcases List.mem_cons.1 hc with rfl | hc
      · rfl
      · obtain ⟨_, -, rfl⟩ := List.mem_map.1 hc
        rfl
    · exact .inr hc

lemma mem_bytes_ofComponents (h : x ∈ (ofComponents cs).bytes) :
    x = slash ∨ ∃ c ∈ cs, x ∈ c.bytes := by
  induction cs using List.reverseRecOn with
  | nil => cases h
  | append_singleton cs c ih =>
    have hlast : x ∈ c.bytes → x = slash ∨ ∃ d ∈ cs ++ [c], x ∈ d.bytes :=
      fun hx => .inr ⟨c, by simp, hx⟩
    have hbefore (hx : x ∈ (ofComponents cs).bytes) : x = slash ∨ ∃ d ∈ cs ++ [c], x ∈ d.bytes :=
      (ih hx).imp_right fun ⟨d, hd, hx⟩ => ⟨d, List.mem_append_left _ hd, hx⟩
    rw [ofComponents_concat, child, join] at h
    split at h
    · exact hlast h
    · split at h
      · exact (List.mem_append.1 h).elim hbefore hlast
      · rcases List.mem_append.1 h with h | h
        · exact hbefore h
        · exact (List.mem_cons.1 h).elim .inl hlast

/-- **Nothing of the working directory** is shown, but for slashes and dots. -/
lemma mem_bytes_shownFrom (h : x ∈ (p.shownFrom wd).bytes) : x ∈ p.bytes ∨ x = slash ∨ x = dot := by
  have hsteps {cs : List Component} (hcs : ∀ c ∈ cs, c = .up ∨ c ∈ p.components)
      (hx : x ∈ (ofComponents cs).bytes) : x ∈ p.bytes ∨ x = slash ∨ x = dot := by
    rcases mem_bytes_ofComponents hx with rfl | ⟨c, hc, hx⟩
    · exact .inr (.inl rfl)
    · rcases hcs c hc with rfl | hc
      · exact .inr (.inr (by simpa [Component.bytes] using hx))
      · exact mem_bytes_of_mem_components hc hx
  have hdrop {cs : List Component} : dropHere cs ⊆ cs := by
    unfold dropHere
    split <;> simp
  unfold shownFrom relativeTo? at h
  split at h
  · split at h
    · rename_i r hr
      split at h
      · exact .inl h
      · split at hr
        · obtain ⟨cs, hcs, rfl⟩ := Option.map_eq_some_iff.1 hr
          exact hsteps (fun c hc => (mem_stepsFrom hcs hc).imp_right fun hc => hdrop hc) h
        · cases hr
          exact .inl h
    · exact .inl h
  · exact .inl h

end Path

namespace Console

/-! ### Escape sequences -/

/-- A character that codes of an escape sequence are written with. -/
def isCode (c : Char) : Bool := c.isDigit || c = ';'

/-- What follows the escape sequence that a text starts with, when it starts with one. -/
def behindSequence? : List Char → Option (List Char)
  | '\x1b' :: '[' :: cs =>
    match cs.dropWhile isCode with
    | 'm' :: rest => some rest
    | _ => none
  | _ => none

lemma length_behindSequence {cs rest : List Char} (h : behindSequence? cs = some rest) :
    rest.length < cs.length := by
  unfold behindSequence? at h
  split at h
  · rename_i cs
    split at h
    · rename_i rest' hdrop
      cases h
      have hlength := (List.dropWhile_suffix isCode (l := cs)).length_le
      rw [hdrop] at hlength
      simp only [List.length_cons] at hlength ⊢
      omega
    · cases h
  · cases h

/-- The text without its escape sequences. -/
def uncoloured : List Char → List Char
  | [] => []
  | c :: cs =>
    match _h : behindSequence? (c :: cs) with
    | some rest => uncoloured rest
    | none => c :: uncoloured cs
  termination_by cs => cs.length
  decreasing_by
    · exact length_behindSequence _h
    · exact Nat.lt_succ_self _

lemma uncoloured_sequence {c : Char} {cs rest : List Char}
    (h : behindSequence? (c :: cs) = some rest) : uncoloured (c :: cs) = uncoloured rest := by
  rw [uncoloured]
  split
  · rename_i heq
    cases h.symm.trans heq
    rfl
  · rename_i heq
    cases h.symm.trans heq

lemma uncoloured_cons {c : Char} (cs : List Char) (h : c ≠ '\x1b') :
    uncoloured (c :: cs) = c :: uncoloured cs := by
  have hnone : behindSequence? (c :: cs) = none := by
    unfold behindSequence?
    split
    · rename_i heq
      exact absurd (List.cons.inj heq).1 h
    · rfl
  rw [uncoloured]
  split
  · rename_i heq
    cases hnone.symm.trans heq
  · rfl

/-- The line without its escape sequences. -/
def uncolouredLine (line : String) : String := .ofList (uncoloured line.toList)

/-- Once escape sequences are deleted, the text reads as `plain`, whatever follows it. -/
def ReadsAs (text plain : String) : Prop :=
  ∀ rest, uncoloured (text.toList ++ rest) = plain.toList ++ uncoloured rest

/-- Nothing is left of the sequences around a text. -/
structure Style.Silent (s : Style) : Prop where
  on : ReadsAs s.on ""
  off : ReadsAs s.off ""

variable {text plain text' plain' codes : String} {s : Style} {wd : Path}

lemma ReadsAs.append (h : ReadsAs text plain) (h' : ReadsAs text' plain') :
    ReadsAs (text ++ text') (plain ++ plain') := fun rest => by
  rw [String.toList_append, String.toList_append, List.append_assoc, h, h', List.append_assoc]

lemma ReadsAs.uncoloured (h : ReadsAs text plain) : uncolouredLine text = plain := by
  have hall := h []
  rw [List.append_nil, Console.uncoloured, List.append_nil] at hall
  rw [uncolouredLine, hall, String.ofList_toList]

lemma readsAs_self (text : String) (h : '\x1b' ∉ text.toList) : ReadsAs text text := by
  intro rest
  revert h
  induction text.toList with
  | nil => exact fun _ => rfl
  | cons c cs ih =>
    intro h
    rw [List.mem_cons, not_or] at h
    rw [List.cons_append, uncoloured_cons _ (Ne.symm h.1), ih h.2, List.cons_append]

lemma readsAs_sequence (h : codes.toList.all isCode = true) : ReadsAs (sequence codes) "" := by
  intro rest
  have hcodes : ∀ c ∈ codes.toList, isCode c = true := List.all_eq_true.1 h
  have hbehind : behindSequence? ('\x1b' :: '[' :: (codes.toList ++ 'm' :: rest)) = some rest := by
    have hend : isCode 'm' = false := by decide
    simp [behindSequence?, List.dropWhile_append_of_pos hcodes, hend]
  have htext : (sequence codes).toList ++ rest =
      '\x1b' :: '[' :: (codes.toList ++ 'm' :: rest) := by
    simp [sequence, escape]
  rw [htext, uncoloured_sequence hbehind]
  rfl

lemma silent_sequences {off : String} (hon : codes.toList.all isCode = true)
    (hoff : off.toList.all isCode = true) : (⟨sequence codes, sequence off⟩ : Style).Silent :=
  ⟨readsAs_sequence hon, readsAs_sequence hoff⟩

lemma readsAs_paint (hs : s.Silent) (h : '\x1b' ∉ text.toList) :
    ReadsAs (s.paint true text) (s.paint false text) := by
  have hpaint := (hs.on.append (readsAs_self text h)).append hs.off
  simpa [Style.paint] using hpaint

lemma notMem_toString (n : Nat) : '\x1b' ∉ (toString n).toList := by
  intro h
  have hdigits : (toString n).toList = Nat.toDigits 10 n := by simp [toString, Nat.repr]
  rw [hdigits] at h
  exact absurd (Nat.isDigit_of_mem_toDigits (by decide) (by decide) h) (by decide)

/-! ### The lines of a report -/

/-- A message as it is told without colours. -/
def note (m : Message) : String :=
  (if m.severity = .fatal then "Fatal " else "") ++ "Error on line " ++ toString m.line ++
    " column " ++ toString m.column ++ ": " ++ m.text

/-- Plain lines that tell of files in their order, and of the messages of each. -/
inductive Tells (wd : Path) : List FileResult → List String → Prop
  | nil : Tells wd [] []
  | clean {f : FileResult} {fs : List FileResult} {ls : List String} (hf : f.messages = [])
    (h : Tells wd fs ls) :
    Tells wd (f :: fs) (("✔ " ++ ((Path.ofString f.path).shownFrom wd).toString) :: "" :: ls)
  | faulty {f : FileResult} {fs : List FileResult} {ls : List String} (hf : f.messages ≠ [])
    (h : Tells wd fs ls) :
    Tells wd (f :: fs) (("✖ " ++ ((Path.ofString f.path).shownFrom wd).toString) ::
      (f.messages.map note ++ "" :: ls))

lemma readsAs_header {f : FileResult} (h : '\x1b' ∉ f.path.toList) :
    ReadsAs (header wd true f) (header wd false f) := by
  have hshown (mark : String) (hmark : '\x1b' ∉ mark.toList) :
      '\x1b' ∉ (mark ++ ((Path.ofString f.path).shownFrom wd).toString).toList := by
    rw [String.toList_append, List.mem_append, Path.toString, String.toList_ofList, not_or]
    refine ⟨hmark, fun hesc => ?_⟩
    have hbyte := (Text.Utf8.ascii_mem_lenientText (c := '\x1b') (by decide)).1 hesc
    rcases Path.mem_bytes_shownFrom hbyte with hbyte | hbyte | hbyte
    · exact h ((Text.Utf8.ascii_mem_encode (c := '\x1b') (by decide)).1 hbyte)
    · cases hbyte
    · cases hbyte
  unfold header
  dsimp only
  split
  · exact readsAs_paint (silent_sequences (by decide) (by decide)) (hshown _ (by decide))
  · exact readsAs_paint (silent_sequences (by decide) (by decide)) (hshown _ (by decide))

lemma readsAs_messageLine {m : Message} (h : '\x1b' ∉ m.text.toList) :
    ReadsAs (messageLine true m) (messageLine false m) := by
  have hplace : Style.place.Silent := silent_sequences (by decide) (by decide)
  have halarm : Style.alarm.Silent := silent_sequences (by decide) (by decide)
  have hnumber (n : Nat) := readsAs_paint hplace (notMem_toString n)
  have hall (kind : String) (hkind : '\x1b' ∉ kind.toList) :=
    have hline := (readsAs_self kind hkind).append (readsAs_self "Error on line " (by decide))
    have hcolumn := (hline.append (hnumber m.line)).append (readsAs_self " column " (by decide))
    have hcolon := (hcolumn.append (hnumber m.column)).append (readsAs_self ": " (by decide))
    hcolon.append (readsAs_paint halarm h)
  unfold messageLine
  cases m.severity with
  | fatal => exact hall "Fatal " (by decide)
  | warning => exact hall "" (by decide)

lemma messageLine_plain (m : Message) : messageLine false m = note m := by
  obtain ⟨line, column, severity, text, rule⟩ := m
  cases severity <;> rfl

lemma fileLines_uncoloured {f : FileResult} (hpath : '\x1b' ∉ f.path.toList)
    (htexts : ∀ m ∈ f.messages, '\x1b' ∉ m.text.toList) :
    (fileLines wd true f).map uncolouredLine = fileLines wd false f := by
  have hempty : uncolouredLine "" = "" := (readsAs_self "" (by decide)).uncoloured
  have hmessages : (f.messages.map (messageLine true)).map uncolouredLine =
      f.messages.map (messageLine false) := by
    rw [List.map_map]
    exact List.map_congr_left fun m hm => (readsAs_messageLine (htexts m hm)).uncoloured
  rw [fileLines, List.map_cons, List.map_append, hmessages, List.map_singleton, hempty,
    (readsAs_header hpath).uncoloured, fileLines]

lemma tells_reportLines (fs : List FileResult) :
    Tells wd fs (fs.flatMap (fileLines wd false)) := by
  induction fs with
  | nil => exact .nil
  | cons f fs ih =>
    have hnotes : f.messages.map (messageLine false) = f.messages.map note :=
      List.map_congr_left fun m _ => messageLine_plain m
    rw [List.flatMap_cons, fileLines, hnotes, header]
    by_cases hf : f.messages = []
    · simpa [hf, Style.paint] using Tells.clean hf ih
    · simpa [hf, Style.paint] using Tells.faulty hf ih

lemma length_reportLines (wd : Path) (colours : Bool) (r : Report) :
    (reportLines wd colours r).length = (r.files.map fun f => 2 + f.messages.length).sum := by
  have hfile (f : FileResult) : (fileLines wd colours f).length = 2 + f.messages.length := by
    simp only [fileLines, List.length_cons, List.length_append, List.length_map, List.length_nil]
    omega
  rw [reportLines, List.length_flatMap]
  simp only [hfile]

/-- **Colours** change nothing but colour. Line by line, a coloured report reads as the plain one
once its escape sequences are deleted, when no path and no text in it has the character that starts
one. The plain lines tell of the files and of their messages in the order of the report: a line for
each file, one for each of its messages and an empty one. -/
theorem uncoloured_report (wd : Path) (r : Report)
    (hpaths : ∀ f ∈ r.files, '\x1b' ∉ f.path.toList)
    (htexts : ∀ f ∈ r.files, ∀ m ∈ f.messages, '\x1b' ∉ m.text.toList) :
    (reportLines wd true r).length = (reportLines wd false r).length ∧
    (reportLines wd true r).map uncolouredLine = reportLines wd false r ∧
    Tells wd r.files (reportLines wd false r) ∧
    ∀ colours, (reportLines wd colours r).length =
      (r.files.map fun f => 2 + f.messages.length).sum := by
  have hlength := fun colours => length_reportLines wd colours r
  refine ⟨(hlength true).trans (hlength false).symm, ?_, tells_reportLines r.files, hlength⟩
  rw [reportLines, reportLines, List.map_flatMap]
  exact List.flatMap_congr fun f hf => fileLines_uncoloured (hpaths f hf) (htexts f hf)

/-- A report with all kinds of lines. -/
def mixedReport : Report :=
  ⟨[⟨"/srv/a.php", []⟩,
    ⟨"b.js", [⟨3, 5, .fatal, "Unexpected [31m", none⟩,
      ⟨8, 2, .warning, "Missing semicolon.", some "semi"⟩]⟩]⟩

/-- A sequence in the name of the working directory is not shown, and one without its first
character is left as it is. -/
theorem uncoloured_mixed_report :
    let wd : Path := .ofString "/\x1b[31m/site"
    (∀ f ∈ mixedReport.files, '\x1b' ∉ f.path.toList) ∧
    (∀ f ∈ mixedReport.files, ∀ m ∈ f.messages, '\x1b' ∉ m.text.toList) ∧
    (reportLines wd true mixedReport).map uncolouredLine =
      ["✔ ../../srv/a.php", "",
        "✖ b.js", "Fatal Error on line 3 column 5: Unexpected [31m",
        "Error on line 8 column 2: Missing semicolon.", ""] := by
  intro wd
  have hpaths : ∀ f ∈ mixedReport.files, '\x1b' ∉ f.path.toList := by decide
  have htexts : ∀ f ∈ mixedReport.files, ∀ m ∈ f.messages, '\x1b' ∉ m.text.toList := by decide
  obtain ⟨-, hplain, -⟩ := uncoloured_report wd mixedReport hpaths htexts
  exact ⟨hpaths, htexts, hplain.trans (by cbv)⟩

end Console

end SiteLint
