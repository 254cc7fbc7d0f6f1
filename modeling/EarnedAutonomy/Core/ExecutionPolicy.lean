import EarnedAutonomy.Core.Policy
import Mathlib.Data.List.Infix

/-!
# What the policy answers

The answer of `PolicyEngine.evaluate`, from the boundary rules, the two levels, the
guards and the anomaly flag alone.

* `evaluateGuards_eq_nil_iff`: guards are clear if every name is known and does not
  fire.
* `execution_policy`: the answer to an event that asks for execution, for every list
  of boundary rules.
* `extra_boundary_tightens_iff`: one more boundary rule tightens the answer exactly
  if what it hides is not stricter than itself.  `hidden_boundary_loosens` is a rule
  that hides a stricter one.
-/

namespace EarnedAutonomy

open OrderedDict

variable {engine : PolicyEngine} {e : WorkflowEvent} {current : AutonomyLevel}
variable {consequences : List ConsequenceClass} {risk : RiskLevel}
variable {rule? : Option DelegationRule}

/-! ## Guards -/

/-- What one name adds to the guards that fired. -/
def firedBy (e : WorkflowEvent) (name : String) : Except PyError (List String) :=
  match guard? name with
  | none => .ok [name ++ ":unknown_guard_fail_closed"]
  | some fn => (fn e).map fun fired => if fired then [name] else []

theorem evaluateGuards_cons (name : String) (rest : List String) (e : WorkflowEvent) :
    evaluateGuards (name :: rest) e = firedBy e name >>= fun fired =>
      evaluateGuards rest e >>= fun others => .ok (fired ++ others) := by
  simp only [firedBy, evaluateGuards]
  cases hguard : guard? name with
  | none => rfl
  | some fn =>
    cases hfn : fn e with
    | error err => simp [hfn, bind, Except.bind, Except.map]
    | ok fired => cases fired <;> simp [hfn, bind, Except.bind, Except.map, pure, Except.pure]

/-- The guard of this name is known, and the event does not set it off. -/
def GuardHolds (e : WorkflowEvent) (name : String) : Prop :=
  ∃ fn, guard? name = some fn ∧ fn e = .ok false

theorem firedBy_eq_nil_iff {e : WorkflowEvent} {name : String} :
    firedBy e name = .ok [] ↔ GuardHolds e name := by
  unfold firedBy GuardHolds
  cases guard? name with
  | none => simp
  | some fn =>
    simp only [Option.some.injEq, exists_eq_left']
    cases fn e with
    | error err => simp [Except.map]
    | ok fired => cases fired <;> simp [Except.map]

/-- No guard fires if each is known and holds. -/
theorem evaluateGuards_eq_nil_iff (names : List String) (e : WorkflowEvent) :
    evaluateGuards names e = .ok [] ↔ ∀ name ∈ names, GuardHolds e name := by
  induction names with
  | nil => simp [evaluateGuards]
  | cons name rest ih =>
    rw [List.forall_mem_cons, ← ih, ← firedBy_eq_nil_iff, evaluateGuards_cons]
    simp only [bind_eq_ok_iff, Except.ok.injEq, List.append_eq_nil_iff]
    constructor
    · rintro ⟨_, hfired, _, hothers, rfl, rfl⟩
      exact ⟨hfired, hothers⟩
    · intro ⟨hfired, hothers⟩
      exact ⟨[], hfired, [], hothers, rfl, rfl⟩

/-- A rule that does not exceed the standing level grants nothing, so its guards do
not matter. -/
theorem guardsClear_iff : guardsClear current rule? e ↔
    ruleLevelValue rule? ≤ current.value ∨
      ∀ r ∈ rule?, ∀ name ∈ r.requiresApprovalIf, GuardHolds e name := by
  cases rule? with
  | none => simp [guardsClear, grantingRule, ruleLevelValue]
  | some r =>
    by_cases h : current.value < r.autonomyLevel.value
    · simp [guardsClear, grantingRule, ruleLevelValue, h, evaluateGuards_eq_nil_iff]
    · simp [guardsClear, grantingRule, ruleLevelValue, h]
      omega

/-! ## Boundary rules -/

variable (current consequences risk rule?) in
/-- The first boundary rule that matches decides. -/
theorem evaluate_of_boundary {b : BoundaryRule}
    (h : engine.boundaryRules.find? (·.matchesEvent e) = some b) :
    ∃ d, engine.evaluate e current consequences risk rule? = .ok d ∧ d.status = b.status := by
  unfold PolicyEngine.evaluate
  rw [h]
  exact ⟨_, rfl, rfl⟩

theorem bounds_eq_false_iff :
    engine.bounds e = false ↔ engine.boundaryRules.find? (·.matchesEvent e) = none := by
  simp [PolicyEngine.bounds]

/-! ## Execution -/

/-- The level at which the agent stands in this evaluation. -/
def levelFor (e : WorkflowEvent) (current : AutonomyLevel) (rule? : Option DelegationRule) : Nat :=
  min (max current.value (ruleLevelValue rule?)) (autonomyCeilingFor e.authorityRequested).value

/-- The agent has earned the execution of the event. -/
structure Executes (e : WorkflowEvent) (current : AutonomyLevel) (rule? : Option DelegationRule) :
    Prop where
  level : AutonomyLevel.executeWithSampling.value ≤ levelFor e current rule?
  guards : ruleLevelValue rule? ≤ current.value ∨
    ∀ r ∈ rule?, ∀ name ∈ r.requiresApprovalIf, GuardHolds e name
  anomaly : AutonomyLevel.exceptionBasedSupervision.value ≤ levelFor e current rule? →
    (e.meta? "anomaly").isTrue = false

/-- The rung of an execution decides between a free and a sampled one. -/
theorem sampleReview_statusForLevel (hexec : e.requiresExecution = true) (effective : AutonomyLevel)
    (risk : RiskLevel) (consequences : List ConsequenceClass) (policyName : Option PyStr)
    (ceiling : AutonomyLevel) (clamped : Bool) (rule? : Option DelegationRule) :
    (statusForLevel e effective risk consequences policyName ceiling clamped rule?).status =
        .sampleReview ↔ effective = .executeWithSampling := by
  cases effective <;> cases hanomaly : (e.meta? "anomaly").isTrue <;>
    simp [statusForLevel, AutonomyLevel.value, hexec, hanomaly]

/-- Past the boundary rules, what is let through for execution was earned. -/
theorem permissive_execution_iff (hexec : e.requiresExecution = true)
    (hbounds : engine.bounds e = false) :
    (∃ d, engine.evaluate e current consequences risk rule? = .ok d ∧
        d.status.permissive = true) ↔ Executes e current rule? := by
  have hrung (policyName : Option PyStr) (clamped : Bool) :
      (statusForLevel e (effectiveLevel e.authorityRequested current rule?) risk consequences
          policyName (autonomyCeilingFor e.authorityRequested) clamped rule?).status.permissive =
          true ↔ AutonomyLevel.executeWithSampling.value ≤ levelFor e current rule? ∧
        (AutonomyLevel.exceptionBasedSupervision.value ≤ levelFor e current rule? →
          (e.meta? "anomaly").isTrue = false) := by
    rw [permissive_statusForLevel, value_effectiveLevel, ← levelFor]
    simp only [hexec, Bool.true_eq_false, and_false, false_or]
    refine and_congr_right fun _ => ?_
    rw [← not_lt, imp_iff_not_or, not_not]
    exact or_comm
  constructor
  · rintro ⟨d, hd, hperm⟩
    rcases evaluate_cases hd with ⟨b, hb, hmatch, _⟩ | ⟨_, _, hstatus⟩ |
      ⟨_, hclear, policyName, clamped, rfl⟩
    · have hany : engine.bounds e = true := List.any_eq_true.mpr ⟨b, hb, hmatch⟩
      rw [hbounds] at hany
      cases hany
    · rw [hstatus] at hperm
      cases hperm
    · obtain ⟨hlevel, hanomaly⟩ := (hrung _ _).mp hperm
      exact ⟨hlevel, guardsClear_iff.mp hclear, hanomaly⟩
  · intro h
    obtain ⟨policyName, clamped, heval⟩ := @evaluate_of_clear engine e current consequences risk
      rule? hbounds (guardsClear_iff.mpr h.guards)
    exact ⟨_, heval, (hrung _ _).mpr ⟨h.level, h.anomaly⟩⟩

/-- The answer to an event that asks for execution.  The first boundary rule that
matches decides.  Without one, the event is let through exactly if its execution was
earned, and for review exactly on the sampling rung. -/
theorem execution_policy (engine : PolicyEngine) (e : WorkflowEvent)
    (hexec : e.requiresExecution = true) (current : AutonomyLevel) (rule? : Option DelegationRule)
    (consequences : List ConsequenceClass) (risk : RiskLevel) :
    (∀ before b after, engine.boundaryRules = before ++ b :: after →
      (∀ x ∈ before, x.matchesEvent e = false) → b.matchesEvent e = true →
      ∃ d, engine.evaluate e current consequences risk rule? = .ok d ∧ d.status = b.status) ∧
    ((∀ b ∈ engine.boundaryRules, b.matchesEvent e = false) →
      ((∃ d, engine.evaluate e current consequences risk rule? = .ok d ∧
          (d.status = .allowed ∨ d.status = .sampleReview)) ↔ Executes e current rule?) ∧
      ∀ d, engine.evaluate e current consequences risk rule? = .ok d →
        (d.status = .allowed ∨ d.status = .sampleReview) →
        (d.status = .sampleReview ↔
          levelFor e current rule? = AutonomyLevel.executeWithSampling.value)) := by
  have hpermissive (s : AutonomyStatus) :
      s.permissive = true ↔ s = .allowed ∨ s = .sampleReview := by
    simp [AutonomyStatus.permissive]
  refine ⟨fun before b after hrules hbefore hmatch => evaluate_of_boundary _ _ _ _ ?_,
    fun hnone => ?_⟩
  · rw [hrules, List.find?_eq_some_iff_append]
    exact ⟨hmatch, before, after, rfl, fun x hx => by simp [hbefore x hx]⟩
  have hbounds : engine.bounds e = false := by
    simpa [PolicyEngine.bounds] using hnone
  simp only [← hpermissive]
  refine ⟨permissive_execution_iff hexec hbounds, fun d hd hperm => ?_⟩
  rcases evaluate_cases hd with ⟨b, hb, hmatch, _⟩ | ⟨_, _, hstatus⟩ |
    ⟨_, _, policyName, clamped, rfl⟩
  · rw [hnone b hb] at hmatch
    cases hmatch
  · rw [hstatus] at hperm
    cases hperm
  · rw [sampleReview_statusForLevel hexec, levelFor, ← value_effectiveLevel]
    exact ⟨fun h => by rw [h], AutonomyLevel.value_injective⟩

/-- The same notice as the execution of an internal change. -/
def changeNotice : WorkflowEvent :=
  { deletionNotice with authorityRequested := .modifyInternalRecord, requiresExecution := true }

/-- On the sampling rung it is let through for review. -/
theorem changeNotice_sampled : ∃ d, PolicyEngine.evaluate {} changeNotice .executeWithSampling []
    .low none = .ok d ∧ d.status = .sampleReview := by
  obtain ⟨_, hladder⟩ := execution_policy {} changeNotice rfl .executeWithSampling none [] .low
  obtain ⟨hearned, hsampled⟩ := hladder (by decide)
  obtain ⟨d, hd, hstatus⟩ := hearned.mpr ⟨by decide, Or.inl (by decide), fun _ => rfl⟩
  exact ⟨d, hd, (hsampled d hd hstatus).mpr (by decide)⟩

/-! ## One more boundary rule -/

/-- How much a status restricts. -/
def AutonomyStatus.restrictiveness : AutonomyStatus → Nat
  | .allowed => 0
  | .sampleReview => 1
  | .approvalRequired => 2
  | .escalate => 3
  | .blocked => 4

/-- The ladder escalates the event: an anomaly on one of its two highest rungs. -/
structure LadderEscalates (e : WorkflowEvent) (current : AutonomyLevel)
    (rule? : Option DelegationRule) : Prop where
  level : AutonomyLevel.exceptionBasedSupervision.value ≤ levelFor e current rule?
  guards : guardsClear current rule? e
  anomaly : (e.meta? "anomaly").isTrue = true
  state : ¬ (isNonState e.authorityRequested = true ∧ e.requiresExecution = false)

theorem escalate_statusForLevel (effective : AutonomyLevel) (risk : RiskLevel)
    (consequences : List ConsequenceClass) (policyName : Option PyStr)
    (ceiling : AutonomyLevel) (clamped : Bool) (rule? : Option DelegationRule) :
    (statusForLevel e effective risk consequences policyName ceiling clamped rule?).status =
        .escalate ↔
      AutonomyLevel.exceptionBasedSupervision.value ≤ effective.value ∧
        (e.meta? "anomaly").isTrue = true ∧
        ¬ (isNonState e.authorityRequested = true ∧ e.requiresExecution = false) := by
  cases effective <;> cases hn : isNonState e.authorityRequested <;>
    cases hx : e.requiresExecution <;> cases ha : (e.meta? "anomaly").isTrue <;>
    simp [statusForLevel, AutonomyLevel.value, hn, hx, ha]

/-- The ladder never blocks. -/
theorem restrictiveness_statusForLevel (effective : AutonomyLevel) (risk : RiskLevel)
    (consequences : List ConsequenceClass) (policyName : Option PyStr)
    (ceiling : AutonomyLevel) (clamped : Bool) (rule? : Option DelegationRule) :
    (statusForLevel e effective risk consequences policyName ceiling clamped rule?).status =
        .escalate ∨
      (statusForLevel e effective risk consequences policyName ceiling clamped
        rule?).status.restrictiveness ≤ AutonomyStatus.approvalRequired.restrictiveness := by
  cases effective <;> cases hn : isNonState e.authorityRequested <;>
    cases hx : e.requiresExecution <;> cases ha : (e.meta? "anomaly").isTrue <;>
    simp [statusForLevel, AutonomyStatus.restrictiveness, AutonomyLevel.value, hn, hx, ha]

/-- Past the boundary rules, the ladder escalates or asks for approval at most. -/
theorem ladder_cases (hbounds : engine.bounds e = false) {d : PolicyDecision}
    (hd : engine.evaluate e current consequences risk rule? = .ok d) :
    (d.status = .escalate ∧ LadderEscalates e current rule?) ∨
      d.status.restrictiveness ≤ AutonomyStatus.approvalRequired.restrictiveness := by
  rcases evaluate_cases hd with ⟨b, hb, hmatch, _⟩ | ⟨_, _, hstatus⟩ |
    ⟨_, hclear, policyName, clamped, rfl⟩
  · have hany : engine.bounds e = true := List.any_eq_true.mpr ⟨b, hb, hmatch⟩
    rw [hbounds] at hany
    cases hany
  · rw [hstatus]
    exact Or.inr (Nat.le_refl _)
  · rcases restrictiveness_statusForLevel (e := e)
      (effectiveLevel e.authorityRequested current rule?) risk consequences policyName
      (autonomyCeilingFor e.authorityRequested) clamped rule? with hescalate | hle
    · obtain ⟨hlevel, hanomaly, hstate⟩ := (escalate_statusForLevel ..).mp hescalate
      rw [value_effectiveLevel] at hlevel
      exact Or.inl ⟨hescalate, hlevel, hclear, hanomaly, hstate⟩
    · exact Or.inr hle

variable (consequences risk) in
theorem evaluate_of_escalates (hbounds : engine.bounds e = false)
    (h : LadderEscalates e current rule?) :
    ∃ d, engine.evaluate e current consequences risk rule? = .ok d ∧ d.status = .escalate := by
  obtain ⟨policyName, clamped, heval⟩ := @evaluate_of_clear engine e current consequences risk rule?
    hbounds h.guards
  refine ⟨_, heval, (escalate_statusForLevel ..).mpr ⟨?_, h.anomaly, h.state⟩⟩
  rw [value_effectiveLevel]
  exact h.level

/-- The extra rule hides nothing that is stricter than itself: it does not come to
bear on the event, or the first rule behind it that matches is no stricter, or there
is none and the ladder is not. -/
def HidesNothingStricter (before after : List BoundaryRule) (extra : BoundaryRule)
    (e : WorkflowEvent) (current : AutonomyLevel) (rule? : Option DelegationRule) : Prop :=
  extra.matchesEvent e = false ∨ (∃ b ∈ before, b.matchesEvent e = true) ∨
    (∀ b, after.find? (·.matchesEvent e) = some b →
      b.status.restrictiveness ≤ extra.status.restrictiveness) ∧
    ((∀ b ∈ after, b.matchesEvent e = false) → LadderEscalates e current rule? →
      AutonomyStatus.escalate.restrictiveness ≤ extra.status.restrictiveness)

/-- Only the first boundary rule that matches is looked at. -/
theorem evaluate_congr {engine' : PolicyEngine}
    (h : engine.boundaryRules.find? (·.matchesEvent e) =
      engine'.boundaryRules.find? (·.matchesEvent e)) :
    engine.evaluate e current consequences risk rule? =
      engine'.evaluate e current consequences risk rule? := by
  unfold PolicyEngine.evaluate
  rw [h]

section Insertion

variable {before after : List BoundaryRule} {extra : BoundaryRule}

theorem find?_insert_of_skipped
    (h : extra.matchesEvent e = false ∨ ∃ b ∈ before, b.matchesEvent e = true) :
    (before ++ extra :: after).find? (·.matchesEvent e) =
      (before ++ after).find? (·.matchesEvent e) := by
  simp only [List.find?_append, List.find?_cons]
  rcases h with hno | ⟨b, hb, hmatch⟩
  · rw [hno]
  · obtain ⟨x, hx⟩ : ∃ x, before.find? (·.matchesEvent e) = some x := by
      cases hfind : before.find? (·.matchesEvent e) with
      | some x => exact ⟨x, rfl⟩
      | none => exact absurd hmatch (List.find?_eq_none.mp hfind b hb)
    rw [hx, Option.some_or, Option.some_or]

/-- The rule behind the extra one that would have decided is no stricter. -/
theorem tightens_over_rule_iff {b : BoundaryRule} {d' : PolicyDecision}
    (hd' : d'.status = extra.status) (hbefore : before.find? (·.matchesEvent e) = none)
    (hafter : after.find? (·.matchesEvent e) = some b) :
    (∀ d, PolicyEngine.evaluate ⟨before ++ after⟩ e current consequences risk rule? = .ok d →
        d.status.restrictiveness ≤ d'.status.restrictiveness) ↔
      b.status.restrictiveness ≤ extra.status.restrictiveness := by
  have hfind : (before ++ after).find? (·.matchesEvent e) = some b := by
    rw [List.find?_append, hbefore, Option.none_or, hafter]
  obtain ⟨d, hd, hstatus⟩ := evaluate_of_boundary current consequences risk rule? hfind
  simp only [hd, Except.ok.injEq, forall_eq', hstatus, hd']

/-- The ladder that would have decided is no stricter. -/
theorem tightens_over_ladder_iff {d' : PolicyDecision} (hd' : d'.status = extra.status)
    (hextra : AutonomyStatus.approvalRequired.restrictiveness ≤ extra.status.restrictiveness)
    (hbounds : PolicyEngine.bounds ⟨before ++ after⟩ e = false) :
    (∀ d, PolicyEngine.evaluate ⟨before ++ after⟩ e current consequences risk rule? = .ok d →
        d.status.restrictiveness ≤ d'.status.restrictiveness) ↔
      (LadderEscalates e current rule? →
        AutonomyStatus.escalate.restrictiveness ≤ extra.status.restrictiveness) := by
  rw [hd']
  constructor
  · intro h hescalates
    obtain ⟨d, hd, hstatus⟩ := evaluate_of_escalates consequences risk hbounds hescalates
    rw [← hstatus]
    exact h d hd
  · intro h d hd
    rcases ladder_cases hbounds hd with ⟨hstatus, hescalates⟩ | hle
    · rw [hstatus]
      exact h hescalates
    · exact hle.trans hextra

end Insertion

/-- A boundary rule for approval or more, inserted anywhere, leaves every answer at
least as strict exactly if it hides nothing that is stricter. -/
theorem extra_boundary_tightens_iff (before after : List BoundaryRule) (extra : BoundaryRule)
    (hextra : AutonomyStatus.approvalRequired.restrictiveness ≤ extra.status.restrictiveness)
    (e : WorkflowEvent) (current : AutonomyLevel) (consequences : List ConsequenceClass)
    (risk : RiskLevel) (rule? : Option DelegationRule) :
    (∀ d d', PolicyEngine.evaluate ⟨before ++ after⟩ e current consequences risk rule? = .ok d →
        PolicyEngine.evaluate ⟨before ++ extra :: after⟩ e current consequences risk rule? =
          .ok d' → d.status.restrictiveness ≤ d'.status.restrictiveness) ↔
      HidesNothingStricter before after extra e current rule? := by
  by_cases hskipped : extra.matchesEvent e = false ∨ ∃ b ∈ before, b.matchesEvent e = true
  · -- the rule does not come to bear
    have hsame : PolicyEngine.evaluate ⟨before ++ extra :: after⟩ e current consequences risk
        rule? = PolicyEngine.evaluate ⟨before ++ after⟩ e current consequences risk rule? :=
      evaluate_congr (find?_insert_of_skipped hskipped)
    refine iff_of_true (fun d d' hd hd' => ?_) (hskipped.imp_right Or.inl)
    rw [hsame, hd] at hd'
    cases hd'
    exact Nat.le_refl _
  · obtain ⟨hmatch, hnone⟩ := not_or.mp hskipped
    have hbefore : before.find? (·.matchesEvent e) = none := by
      simpa using hnone
    have hfind : (before ++ extra :: after).find? (·.matchesEvent e) = some extra := by
      rw [List.find?_append, hbefore, Option.none_or, List.find?_cons]
      simp [hmatch]
    obtain ⟨d', hd', hstatus⟩ := evaluate_of_boundary current consequences risk rule? hfind
    have hanswer : (∀ d d₁, PolicyEngine.evaluate ⟨before ++ after⟩ e current consequences risk
        rule? = .ok d → PolicyEngine.evaluate ⟨before ++ extra :: after⟩ e current consequences
          risk rule? = .ok d₁ → d.status.restrictiveness ≤ d₁.status.restrictiveness) ↔
        ∀ d, PolicyEngine.evaluate ⟨before ++ after⟩ e current consequences risk rule? = .ok d →
          d.status.restrictiveness ≤ d'.status.restrictiveness := by
      simp only [hd', Except.ok.injEq]
      exact ⟨fun h d hd => h d d' hd rfl, fun h d d₁ hd hd₁ => hd₁ ▸ h d hd⟩
    rw [hanswer, HidesNothingStricter, or_iff_right hmatch, or_iff_right hnone]
    cases hafter : after.find? (·.matchesEvent e) with
    | some b =>
      have hsome : ¬ ∀ b ∈ after, b.matchesEvent e = false := by
        intro hall
        rw [List.find?_eq_none.mpr fun b hb => by simp [hall b hb]] at hafter
        cases hafter
      rw [tightens_over_rule_iff hstatus hbefore hafter]
      simp [hsome]
    | none =>
      have hall : ∀ b ∈ after, b.matchesEvent e = false := by
        simpa using hafter
      have hbounds : PolicyEngine.bounds ⟨before ++ after⟩ e = false := by
        rw [bounds_eq_false_iff, List.find?_append, hbefore, Option.none_or, hafter]
      rw [tightens_over_ladder_iff hstatus hextra hbounds]
      exact ⟨fun h => ⟨nofun, fun _ => h⟩, fun h => h.2 hall⟩

/-- A rule that asks for approval, in front of one that blocks. -/
def approvalNotice : BoundaryRule where
  name := "Deletions need approval"
  authorityClasses := [.deleteData]
  status := .approvalRequired

def deletionBlock : BoundaryRule where
  name := "Deletions are blocked"
  authorityClasses := [.deleteData]
  status := .blocked

/-- The stricter rule behind it is no longer reached. -/
theorem hidden_boundary_loosens :
    AutonomyStatus.approvalRequired.restrictiveness ≤ approvalNotice.status.restrictiveness ∧
    ¬ ∀ d d', PolicyEngine.evaluate ⟨[] ++ [deletionBlock]⟩ deletionNotice .observeOnly []
        .critical none = .ok d →
      PolicyEngine.evaluate ⟨[] ++ approvalNotice :: [deletionBlock]⟩ deletionNotice
        .observeOnly [] .critical none = .ok d' →
      d.status.restrictiveness ≤ d'.status.restrictiveness := by
  refine ⟨by decide, fun h => ?_⟩
  have hle := h _ _ rfl rfl
  revert hle
  decide

/-- In front of the rule that asks for approval, the one that blocks tightens. -/
theorem stricter_boundary_tightens :
    ∃ d d', PolicyEngine.evaluate ⟨[] ++ [approvalNotice]⟩ deletionNotice .observeOnly []
        .critical none = .ok d ∧
      PolicyEngine.evaluate ⟨[] ++ deletionBlock :: [approvalNotice]⟩ deletionNotice
        .observeOnly [] .critical none = .ok d' ∧
      d.status.restrictiveness ≤ d'.status.restrictiveness := by
  refine ⟨_, _, rfl, rfl, ?_⟩
  apply (extra_boundary_tightens_iff [] [approvalNotice] deletionBlock (by decide) deletionNotice
    .observeOnly [] .critical none).mpr _ _ _ rfl rfl
  refine Or.inr (Or.inr ⟨fun b hb => ?_, fun _ _ => by decide⟩)
  obtain rfl : approvalNotice = b := Option.some.inj hb
  decide

end EarnedAutonomy
