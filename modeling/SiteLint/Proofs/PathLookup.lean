import Mathlib.Tactic.Lemma
import SiteLint.Project
import SiteLint.Proofs.PathText
import SiteLint.Proofs.TreeLookup

/-!
Where a path leads, seen from one directory and from another.

An absolute path leads to one place from everywhere. A relative one leads somewhere else as a rule:
without links and steps up, two directories from which it leads to one place are the same.
-/

namespace SiteLint

/-! ### Absolute paths -/

namespace Path

@[simp] lemma isAbsolute_ofLocation (location : List Name) :
    (ofLocation location).isAbsolute = true := by
  simp [isAbsolute, ofLocation]

@[simp] lemma isAbsolute_join (p q : Path) :
    (p.join q).isAbsolute = (p.isAbsolute || q.isAbsolute) := by
  unfold join
  split
  · rename_i hq
    simp [hq]
  · rename_i hq
    have hq' : q.isAbsolute = false := by simpa using hq
    rw [hq', Bool.or_false]
    obtain ⟨cs⟩ := p
    cases cs with
    | nil => simpa [isAbsolute] using hq'
    | cons c cs => split <;> simp [isAbsolute]

lemma isAbsolute_of_parent {p q : Path} (h : p.parent? = some q) (hp : p.isAbsolute = true) :
    q.isAbsolute = true := by
  unfold parent? at h
  simp only [hp, if_true] at h
  split at h
  · cases h
  · split at h
    · cases h
    · cases h
      rfl

lemma isAbsolute_of_mem_ancestorsWithin {steps : Nat} {p q : Path} (hp : p.isAbsolute = true)
    (h : q ∈ p.ancestorsWithin steps) : q.isAbsolute = true := by
  induction steps generalizing p with
  | zero =>
    obtain rfl : q = p := by simpa [ancestorsWithin] using h
    exact hp
  | succ steps ih =>
    simp only [ancestorsWithin, List.mem_cons] at h
    rcases h with rfl | h
    · exact hp
    · cases hparent : p.parent? with
      | none => simp [hparent] at h
      | some above =>
        have habove := isAbsolute_of_parent hparent hp
        exact ih habove (by simpa [hparent] using h)

end Path

lemma Project.isAbsolute_rootFrom {host : Host} {start : Path} (h : start.isAbsolute = true) :
    (rootFrom host start).isAbsolute = true := by
  unfold rootFrom
  cases hfind : start.ancestors.find? (isMarked host) with
  | none => simpa using h
  | some dir => exact Path.isAbsolute_of_mem_ancestorsWithin h (List.mem_of_find?_eq_some hfind)

/-! ### The same path from two directories -/

namespace Host

/-- The machine as a program sees it that runs in the directory `dir`. -/
def seenFrom (host : Host) (dir : List Name) : Host := { host with workingDirectory := dir }

lemma locate_eq_follow {host : Host} {p : Path} {through : Bool} {l : List Name}
    (h : host.locate p through = .ok l) (other : Host) (through' : Bool) :
    other.locate p through' =
      follow other.tree through' linkLimit (if p.isAbsolute then [] else other.workingDirectory)
        p.steps := by
  unfold locate at h ⊢
  split at h
  · cases h
  · split at h
    · cases h
    · split at h
      · cases h
      · rename_i hnul hempty hlong
        simp only [hnul, hempty, hlong, if_false]

/-- From the directory `dir` the text of the path leads to where the path leads from the working
directory. -/
def SameFile (host : Host) (dir : List Name) (p : Path) : Prop :=
  ∃ l, host.locate p true = .ok l ∧
    (host.seenFrom dir).locate (.ofString p.toString) true = .ok l

lemma sameFile_iff {host : Host} {p : Path} {l : List Name} (h : host.locate p true = .ok l)
    (htext : p.IsText) (dir : List Name) :
    host.SameFile dir p ↔ p.isAbsolute = true ∨
      ∃ l, follow host.tree true linkLimit dir p.steps = .ok l ∧
        follow host.tree true linkLimit host.workingDirectory p.steps = .ok l := by
  have hdir := locate_eq_follow h (host.seenFrom dir) true
  have hhere : host.locate p true = follow host.tree true linkLimit
      (if p.isAbsolute then [] else host.workingDirectory) p.steps :=
    locate_eq_follow h host true
  rw [SameFile, ← Path.reread, Path.reread_eq_iff.2 htext]
  cases hp : p.isAbsolute with
  | true =>
    rw [hp] at hdir hhere
    simp only [true_or, iff_true]
    exact ⟨l, h, hdir.trans (hhere.symm.trans h)⟩
  | false =>
    rw [hdir, hhere, hp]
    simp only [Bool.false_eq_true, if_false, false_or]
    exact exists_congr fun _ => and_comm

end Host

/-! ### Trees without links -/

/-- No entry of the tree is a link. -/
inductive Entry.LinkFree : Entry → Prop
  | file (n : Name) (bytes : List UInt8) : LinkFree (.file n bytes)
  | directory (n : Name) (es : List Entry) (h : ∀ e ∈ es, LinkFree e) : LinkFree (.directory n es)

namespace Entry

lemma LinkFree.find {es : List Entry} {n : Name} {e : Entry} (h : ∀ e ∈ es, LinkFree e)
    (he : find? n es = some e) : e.LinkFree :=
  h e (List.mem_of_find?_eq_some he)

lemma LinkFree.at {tree e : Entry} {location : List Name} (h : tree.LinkFree)
    (he : tree.at? location = some e) : e.LinkFree := by
  refine at?_hereditary (fun n es hes => ?_) h he
  cases hes with
  | directory _ _ h => exact h

end Entry

lemma Host.follow_linkFree {tree : Entry} {through : Bool} {links : Nat} {here todo l : List Name}
    (hfree : tree.LinkFree) (hup : [dot, dot] ∉ todo)
    (h : follow tree through links here todo = .ok l) : l = here ++ todo.filter (· ≠ [dot]) := by
  induction todo generalizing here with
  | nil =>
    obtain rfl : here = l := by simpa [follow] using h
    simp
  | cons n rest ih =>
    obtain ⟨hn, hrest⟩ : n ≠ [dot, dot] ∧ [dot, dot] ∉ rest := by
      simpa [eq_comm] using hup
    rw [follow] at h
    split at h
    · rename_i m es hhere
      by_cases hdot : n = [dot]
      · rw [if_pos hdot] at h
        rw [ih hrest h, List.filter_cons_of_neg (by simp [hdot])]
      · rw [if_neg hdot, if_neg hn] at h
        split at h
        · cases h
        · split at h
          · cases h
          · -- a link is not among the entries
            rename_i hfind
            cases hfree.at hhere with
            | directory _ _ hes => cases Entry.LinkFree.find hes hfind
          · rw [ih hrest h, List.filter_cons_of_pos (by simp [hdot])]
            simp
    · cases h
    · cases h

lemma Host.sameFile_iff_of_linkFree {host : Host} {p : Path} {l : List Name}
    (h : host.locate p true = .ok l) (htext : p.IsText) (dir : List Name)
    (hfree : host.tree.LinkFree) (hup : [dot, dot] ∉ p.steps) :
    host.SameFile dir p ↔ p.isAbsolute = true ∨ dir = host.workingDirectory := by
  rw [sameFile_iff h htext]
  cases hp : p.isAbsolute with
  | true => simp
  | false =>
    simp only [Bool.false_eq_true, false_or]
    constructor
    · rintro ⟨l', hdir, hhere⟩
      have heq := (follow_linkFree hfree hup hdir).symm.trans (follow_linkFree hfree hup hhere)
      exact List.append_cancel_right heq
    · rintro rfl
      have hhere := locate_eq_follow h host true
      rw [hp] at hhere
      exact ⟨l, hhere.symm.trans h, hhere.symm.trans h⟩

end SiteLint
