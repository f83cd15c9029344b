import SiteLint.Proofs.RunLog

/-!
What a run tells, and what its totals and exit status have to do with it.

The events of a run are one block for each domain of the command, in order, and what stands in a
block follows from the targets of the domain. A failure ends its own pass or its own domain only:
the blocks and the pairs of events behind it are all there.
-/

namespace SiteLint.Run

variable {σ : Type} (view : σ → Host) (c : Configuration) (run : Runner σ)

/-- Passes that are run one after the other: each one starts, and then it finishes or fails. -/
inductive PassPairs (targets : List Target) : List Pass → σ → List Event → σ → Prop
  | nil (s : σ) : PassPairs targets [] s [] s
  | finished {p : Pass} {ps : List Pass} {s₀ s₁ s₂ : σ} {r : Report} {es : List Event}
      (here : p.check (view s₀) c run targets s₀ = (.ok r, s₁))
      (later : PassPairs targets ps s₁ es s₂) :
      PassPairs targets (p :: ps) s₀ (.passStarted p :: .passFinished p r :: es) s₂
  | failed {p : Pass} {ps : List Pass} {s₀ s₁ s₂ : σ} {e : Failure} {es : List Event}
      (here : p.check (view s₀) c run targets s₀ = (.error e, s₁))
      (later : PassPairs targets ps s₁ es s₂) :
      PassPairs targets (p :: ps) s₀ (.passStarted p :: .passFailed p e :: es) s₂

/-- What can become of a domain in a run. -/
inductive Fate
  | passedOver
  | skipped
  | refused
  | noTargets
  | noMatches
  | linted

variable (cmd : Command) (name : Option String)

/-- The events that a fate of a domain stands for, from a state to a state. -/
def Block (d : Domain) (s₀ : σ) (es : List Event) (s₁ : σ) : Fate → Prop
  | .passedOver =>
    ∃ e, targets (view s₀) c cmd name d = .error e ∧ e.isSkippable = true ∧
      c.unsupportedTarget = .skip ∧ es = [] ∧ s₁ = s₀
  | .skipped =>
    ∃ e, targets (view s₀) c cmd name d = .error e ∧ e.isSkippable = true ∧
      c.unsupportedTarget = .warn ∧ es = [.skipped d e] ∧ s₁ = s₀
  | .refused =>
    ∃ e, targets (view s₀) c cmd name d = .error e ∧ e.isSkippable = false ∧
      es = [.resolveFailed d e] ∧ s₁ = s₀
  | .noTargets =>
    targets (view s₀) c cmd name d = .ok [] ∧ name = none ∧ (d.config c).targets = [] ∧
      es = [.noTargets d] ∧ s₁ = s₀
  | .noMatches =>
    targets (view s₀) c cmd name d = .ok [] ∧ name = none ∧ (d.config c).targets ≠ [] ∧
      es = [.noMatches d] ∧ s₁ = s₀
  | .linted =>
    ∃ ts, targets (view s₀) c cmd name d = .ok ts ∧ ts ≠ [] ∧
      PassPairs view c run ts (cmd.passes d) s₀ es s₁

/-- Blocks of domains that are dealt with one after the other, each in exactly one way. -/
inductive Blocks : List Domain → σ → List (List Event) → σ → Prop
  | nil (s : σ) : Blocks [] s [] s
  | cons {d : Domain} {ds : List Domain} {s₀ s₁ s₂ : σ} {es : List Event}
      {blocks : List (List Event)}
      (here : ∃! f, Block view c run cmd name d s₀ es s₁ f) (later : Blocks ds s₁ blocks s₂) :
      Blocks (d :: ds) s₀ (es :: blocks) s₂

variable {view c run cmd name}

lemma passLog_pairs (targets : List Target) (ps : List Pass) (s : σ) :
    PassPairs view c run targets ps s (eventsIn (passLog view c run targets ps s).1)
      (passLog view c run targets ps s).2 := by
  induction ps generalizing s with
  | nil => exact .nil s
  | cons p ps ih =>
    simp only [passLog, eventsIn_append, eventsIn_span]
    rcases h : p.check (view s) c run targets s with ⟨_ | r, s₁⟩
    · exact .failed h (ih s₁)
    · exact .finished h (ih s₁)

/-- The fate of a domain, by its targets. -/
def fateOf (host : Host) (c : Configuration) (cmd : Command) (name : Option String) (d : Domain) :
    Fate :=
  match targets host c cmd name d with
  | .error e =>
    if e.isSkippable then
      match c.unsupportedTarget with
      | .skip => .passedOver
      | .warn => .skipped
    else .refused
  | .ok [] => if (d.config c).targets.isEmpty then .noTargets else .noMatches
  | .ok (_ :: _) => .linted

lemma Block.eq_fateOf {d : Domain} {s₀ s₁ : σ} {es : List Event} {f : Fate}
    (h : Block view c run cmd name d s₀ es s₁ f) : f = fateOf (view s₀) c cmd name d := by
  cases f with
  | passedOver => obtain ⟨e, ht, hs, hp, -, -⟩ := h; simp [fateOf, ht, hs, hp]
  | skipped => obtain ⟨e, ht, hs, hp, -, -⟩ := h; simp [fateOf, ht, hs, hp]
  | refused => obtain ⟨e, ht, hs, -, -⟩ := h; simp [fateOf, ht, hs]
  | noTargets => obtain ⟨ht, -, hc, -, -⟩ := h; simp [fateOf, ht, hc]
  | noMatches => obtain ⟨ht, -, hc, -, -⟩ := h; simp [fateOf, ht, hc]
  | linted =>
    obtain ⟨ts, ht, hne, -⟩ := h
    obtain ⟨t, ts, rfl⟩ := List.exists_cons_of_ne_nil hne
    simp [fateOf, ht]

lemma name_eq_none {host : Host} {d : Domain} (h : targets host c cmd name d = .ok []) :
    name = none := by
  cases name with
  | none => rfl
  | some n =>
    simp only [targets, Target.resolve] at h
    cases hr : Target.requested host (d.config c) c.projectRoot d.linterName cmd.scope n <;>
      simp [hr, Except.map] at h

lemma domainLog_block (d : Domain) (s : σ) :
    Block view c run cmd name d s (eventsIn (domainLog view c cmd name run d s).1)
      (domainLog view c cmd name run d s).2 (fateOf (view s) c cmd name d) := by
  unfold domainLog fateOf
  rcases h : targets (view s) c cmd name d with e | _ | ⟨t, ts⟩
  · -- no targets can be had
    simp only [eventsIn_map_event, refusal]
    cases hs : e.isSkippable with
    | false => exact ⟨e, h, hs, rfl, rfl⟩
    | true =>
      cases hp : c.unsupportedTarget with
      | skip => exact ⟨e, h, hs, hp, rfl, rfl⟩
      | warn => exact ⟨e, h, hs, hp, rfl, rfl⟩
  · -- there is nothing to lint
    have hname := name_eq_none h
    by_cases ht : (d.config c).targets = []
    · simpa [ht, idle] using ⟨h, hname, ht, rfl, rfl⟩
    · simpa [ht, idle] using ⟨h, hname, ht, rfl, rfl⟩
  · exact ⟨_, h, List.cons_ne_nil _ _, passLog_pairs _ _ _⟩

lemma domainsLog_blocks (ds : List Domain) (s : σ) :
    ∃ blocks, Blocks view c run cmd name ds s blocks (domainsLog view c cmd name run ds s).2 ∧
      eventsIn (domainsLog view c cmd name run ds s).1 = blocks.flatten := by
  induction ds generalizing s with
  | nil => exact ⟨[], .nil s, rfl⟩
  | cons d ds ih =>
    obtain ⟨blocks, hblocks, hevents⟩ := ih (domainLog view c cmd name run d s).2
    have hone : ∃! f, Block view c run cmd name d s
        (eventsIn (domainLog view c cmd name run d s).1)
        (domainLog view c cmd name run d s).2 f :=
      ⟨_, domainLog_block d s, fun f hf => hf.eq_fateOf⟩
    refine ⟨_ :: blocks, .cons hone hblocks, ?_⟩
    simp [domainsLog, hevents]

/-! ### Totals -/

lemma reports_cons (e : Event) (es : List Event) :
    reports (e :: es) = reports [e] ++ reports es := by
  cases e <;> rfl

lemma failures_cons (e : Event) (es : List Event) :
    failures (e :: es) = failures [e] ++ failures es := by
  cases e <;> rfl

lemma ofEvents_eq (es : List Event) :
    Summary.ofEvents es =
      ⟨((reports es).map fun x => x.2.files.length).sum,
        ((reports es).map fun x => x.2.messageCount).sum, (failures es).length⟩ := by
  induction es with
  | nil => rfl
  | cons e es ih =>
    rw [Summary.ofEvents_cons, ih, reports_cons, failures_cons]
    ext <;> cases e <;> simp [reports, failures, Summary.ofEvent, Nat.add_comm]

/-- **Protocol and accounts of a run.** The events are one block for each domain, in order; the
totals are what the events add up to; and the exit status follows from the events. -/
theorem events_in_blocks (view : σ → Host) (c : Configuration) (cmd : Command)
    (name : Option String) (run : Runner σ) (s : σ) :
    let r := perform view c cmd name run s
    (∃ blocks, Blocks view c run cmd name cmd.domains s blocks r.memory ∧
      r.events = blocks.flatten) ∧
    r.totals.files = ((reports r.events).map fun x => x.2.files.length).sum ∧
    r.totals.messages = ((reports r.events).map fun x => x.2.messageCount).sum ∧
    r.totals.errors = (failures r.events).length ∧
    r.totals.exitCode c.failOnViolations =
      if failures r.events ≠ [] then 2
      else if c.failOnViolations ∧ ∃ x ∈ reports r.events, 0 < x.2.messageCount then 1
      else 0 := by
  intro r
  have hr : r = _ := perform_eq s
  have htotals : r.totals = _ := (perform_totals s).trans (ofEvents_eq r.events)
  have hfiles := congrArg Summary.files htotals
  have hmessages := congrArg Summary.messages htotals
  have herrors := congrArg Summary.errors htotals
  refine ⟨?_, hfiles, hmessages, herrors, ?_⟩
  · rw [hr]
    exact domainsLog_blocks cmd.domains s
  · have hfailed : 0 < r.totals.errors ↔ failures r.events ≠ [] := by
      rw [herrors, List.length_pos_iff]
    have hfound : 0 < r.totals.messages ↔ ∃ x ∈ reports r.events, 0 < x.2.messageCount := by
      rw [hmessages, List.sum_pos_iff_exists_pos_nat]
      simp
    simp only [Summary.exitCode, gt_iff_lt, Bool.and_eq_true, decide_eq_true_eq, hfailed, hfound]

end SiteLint.Run
