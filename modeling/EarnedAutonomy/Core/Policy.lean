import EarnedAutonomy.Core.Conditions
import EarnedAutonomy.Core.Ontology

/-!
# The policy engine

`core/policy.py`: boundary rules first, then the lower of the granted level and
the ceiling of the authority class, then the guards of the rule that grants it,
then the status of the rung that is left.

`evaluate_cases` lists the ways an evaluation ends and `permissive_statusForLevel`
says which rungs let an action proceed.  Every result about the policy is drawn
from these two.
-/

namespace EarnedAutonomy

open OrderedDict

/-- The statuses that lead to a capability token. -/
def AutonomyStatus.permissive (s : AutonomyStatus) : Bool := s = .allowed || s = .sampleReview

/-! ## Boundary rules -/

/-- A rule that overrides all trust history. -/
structure BoundaryRule where
  name : PyStr
  authorityClasses : List AuthorityClass := []
  metadataConditions : Mapping := []
  status : AutonomyStatus := .approvalRequired
  riskLevel : RiskLevel := .medium
  reason : PyStr := "Policy boundary matched"
  requiredApproverRole : Option PyStr := none

/-- An empty list of classes stands for every class. -/
def BoundaryRule.matchesEvent (r : BoundaryRule) (e : WorkflowEvent) : Bool :=
  if !r.authorityClasses.isEmpty && e.authorityRequested ∉ r.authorityClasses then false
  else r.metadataConditions.all fun c => (e.meta? c.1).eq c.2

def defaultBoundaryRules : List BoundaryRule := [
  { name := "Block legal position changes"
    authorityClasses := [.changeLegalPosition, .bindOrganization]
    status := .blocked
    riskLevel := .critical
    reason :=
      "Legal/binding authority is blocked unless handled by a specialized enterprise policy."
    requiredApproverRole := some "legal_admin" },
  { name := "Value transfer and spend require escalation"
    authorityClasses := [.transferValue, .spendMoney]
    status := .escalate
    riskLevel := .critical
    reason := "Moving or spending money requires escalation and named human accountability."
    requiredApproverRole := some "finance_admin" },
  { name := "Pricing and discounts require approval"
    authorityClasses := [.offerPricingOrDiscount, .commitCommercialPosition]
    status := .approvalRequired
    riskLevel := .high
    reason := "Pricing, discount, or commercial commitment requires human accountability."
    requiredApproverRole := some "commercial_owner" },
  { name := "Production and deletion require escalation"
    authorityClasses := [.deleteData, .modifyProductionSystem]
    status := .escalate
    riskLevel := .critical
    reason := "Destructive or production-impacting actions require escalation."
    requiredApproverRole := some "system_admin" },
  { name := "Access changes require approval"
    authorityClasses := [.grantAccess, .revokeAccess]
    status := .approvalRequired
    riskLevel := .high
    reason := "Access authority requires human approval."
    requiredApproverRole := some "security_admin" }]

structure PolicyEngine where
  boundaryRules : List BoundaryRule := defaultBoundaryRules

/-! ## The level that applies -/

/-- The matching rule, if it is what grants the level: its level is above the
standing one. -/
def grantingRule (current : AutonomyLevel) : Option DelegationRule → Option DelegationRule
  | some r => if current.value < r.autonomyLevel.value then some r else none
  | none => none

/-- The level the agent may use here, before the ceiling. -/
def candidateLevel (current : AutonomyLevel) (rule? : Option DelegationRule) : AutonomyLevel :=
  match grantingRule current rule? with
  | some r => r.autonomyLevel
  | none => current

/-- The level after the ceiling of the class. -/
def effectiveLevel (authority : AuthorityClass) (current : AutonomyLevel)
    (rule? : Option DelegationRule) : AutonomyLevel :=
  (candidateLevel current rule?).cappedAt (autonomyCeilingFor authority)

/-- The number of a rule's level, 0 without a rule. -/
def ruleLevelValue : Option DelegationRule → Nat
  | some r => r.autonomyLevel.value
  | none => 0

theorem value_candidateLevel (current : AutonomyLevel) (rule? : Option DelegationRule) :
    (candidateLevel current rule?).value = max current.value (ruleLevelValue rule?) := by
  unfold candidateLevel
  cases rule? with
  | none => simp [grantingRule, ruleLevelValue]
  | some r =>
    by_cases h : current.value < r.autonomyLevel.value
    · simp only [grantingRule, ruleLevelValue, h, if_true]
      omega
    · simp only [grantingRule, ruleLevelValue, h, if_false]
      omega

/-- The effective level is the larger of the two levels, cut at the ceiling. -/
theorem value_effectiveLevel (authority : AuthorityClass) (current : AutonomyLevel)
    (rule? : Option DelegationRule) :
    (effectiveLevel authority current rule?).value =
      min (max current.value (ruleLevelValue rule?)) (autonomyCeilingFor authority).value := by
  rw [effectiveLevel, AutonomyLevel.value_cappedAt, value_candidateLevel]

/-! ## The status of a rung -/

/-- The sample rates of `policy.py`, as the floats they are. -/
def attestationRate : PyFloat := .exact 3602879701896397 56

def defaultSampleRate : PyFloat := .exact 3602879701896397 54

/-- `_status_for_level` -/
def statusForLevel (e : WorkflowEvent) (effective : AutonomyLevel) (risk : RiskLevel)
    (consequences : List ConsequenceClass) (policyName : Option PyStr)
    (ceiling : AutonomyLevel) (ceilingClamped : Bool) (rule? : Option DelegationRule) :
    PolicyDecision :=
  let clampNote := if ceilingClamped then " (clamped by risk ceiling)" else ""
  let decision (status : AutonomyStatus) (reason : String) (sampleRate : PyFloat) :
      PolicyDecision :=
    { status := status
      riskLevel := risk
      consequenceClasses := consequences
      reason := .utf8 (reason ++ clampNote)
      policyName := policyName
      sampleRate := sampleRate
      autonomyCeiling := some ceiling.value }
  let ruleSample : PyFloat := match rule? with
    | some r => r.sampleRate
    | none => .fin 0
  let anomaly := (e.meta? "anomaly").isTrue
  if isNonState e.authorityRequested = true ∧ e.requiresExecution = false ∧
      AutonomyLevel.observeOnly.value ≤ effective.value then
    decision .allowed "Non-state action permitted at current autonomy." (.fin 0)
  else if effective = .delegatedAuthority then
    if anomaly then
      decision .escalate "Delegated authority but anomaly flag set." (.fin 0)
    else
      decision .allowed "Delegated authority within approved envelope (periodic attestation)."
        (ruleSample.max attestationRate)
  else if effective = .exceptionBasedSupervision then
    if anomaly then
      decision .escalate "Exception-based supervision caught an anomaly." (.fin 0)
    else
      decision .allowed "Exception-based supervision: no anomaly detected." (.fin 0)
  else if effective = .conditionalAutonomy then
    decision .allowed "Conditional autonomy: action inside approved policy envelope." (.fin 0)
  else if effective = .executeWithSampling then
    decision .sampleReview "Execution allowed with human sample review."
      (if ruleSample.truthy then ruleSample else defaultSampleRate)
  else if effective.value ≤ AutonomyLevel.draft.value then
    if e.requiresExecution then
      decision .approvalRequired "Agent has not earned execution authority." (.fin 0)
    else
      decision .allowed "Preparatory (non-execution) work permitted." (.fin 0)
  else
    decision .approvalRequired "Current autonomy level requires approval for execution." (.fin 0)

/-- The rungs that let an action proceed: any rung for a read that executes
nothing, the rungs below approval for anything that is not marked as an
execution, and the rungs above approval unless an anomaly stops them. -/
theorem permissive_statusForLevel (e : WorkflowEvent) (effective : AutonomyLevel)
    (risk : RiskLevel) (consequences : List ConsequenceClass) (policyName : Option PyStr)
    (ceiling : AutonomyLevel) (clamped : Bool) (rule? : Option DelegationRule) :
    (statusForLevel e effective risk consequences policyName ceiling clamped
        rule?).status.permissive = true ↔
      (isNonState e.authorityRequested = true ∧ e.requiresExecution = false) ∨
      (effective.value ≤ AutonomyLevel.draft.value ∧ e.requiresExecution = false) ∨
      (AutonomyLevel.executeWithSampling.value ≤ effective.value ∧
        ((e.meta? "anomaly").isTrue = false ∨
          effective.value < AutonomyLevel.exceptionBasedSupervision.value)) := by
  cases effective <;> cases hn : isNonState e.authorityRequested <;>
    cases hx : e.requiresExecution <;> cases ha : (e.meta? "anomaly").isTrue <;>
    simp [statusForLevel, AutonomyStatus.permissive, AutonomyLevel.value, hn, hx, ha]

/-! ## Evaluation -/

/-- `PolicyEngine.evaluate` -/
def PolicyEngine.evaluate (engine : PolicyEngine) (e : WorkflowEvent)
    (current : AutonomyLevel) (consequences : List ConsequenceClass)
    (classifierRisk : RiskLevel) (rule? : Option DelegationRule) :
    Except PyError PolicyDecision :=
  let ceiling := autonomyCeilingFor e.authorityRequested
  match engine.boundaryRules.find? (·.matchesEvent e) with
  | some boundary =>
      .ok {
        status := boundary.status
        riskLevel := maxRisk classifierRisk boundary.riskLevel
        consequenceClasses := consequences
        reason := boundary.reason
        policyName := some boundary.name
        requiredApproverRole := boundary.requiredApproverRole
        autonomyCeiling := some ceiling.value }
  | none =>
      let effective := effectiveLevel e.authorityRequested current rule?
      let clamped := decide (effective.value < (candidateLevel current rule?).value)
      match grantingRule current rule? with
      | none =>
          .ok (statusForLevel e effective classifierRisk consequences none ceiling clamped rule?)
      | some rule => do
          let triggered ← evaluateGuards rule.requiresApprovalIf e
          if triggered.isEmpty then
            return statusForLevel e effective classifierRisk consequences (some rule.ruleName)
              ceiling clamped rule?
          else
            return {
              status := .approvalRequired
              riskLevel := classifierRisk
              consequenceClasses := consequences
              reason := .utf8 ("Delegation rule guard(s) fired: " ++ ", ".intercalate triggered)
              policyName := some rule.ruleName
              autonomyCeiling := some ceiling.value
              triggeredGuards := triggered }

section Evaluation

variable {engine : PolicyEngine} {e : WorkflowEvent} {current : AutonomyLevel}
variable {consequences : List ConsequenceClass} {risk : RiskLevel}
variable {rule? : Option DelegationRule}

/-- Some boundary rule applies to the event. -/
def PolicyEngine.bounds (engine : PolicyEngine) (e : WorkflowEvent) : Bool :=
  engine.boundaryRules.any (·.matchesEvent e)

/-- The guards of the rule that grants the level leave it in force. -/
def guardsClear (current : AutonomyLevel) (rule? : Option DelegationRule) (e : WorkflowEvent) :
    Prop :=
  ∀ r, grantingRule current rule? = some r → evaluateGuards r.requiresApprovalIf e = .ok []

/-- The ways an evaluation ends. -/
theorem evaluate_cases {d : PolicyDecision}
    (h : engine.evaluate e current consequences risk rule? = .ok d) :
    (∃ b ∈ engine.boundaryRules, b.matchesEvent e = true ∧ d.status = b.status) ∨
      (engine.bounds e = false ∧ ¬ guardsClear current rule? e ∧
        d.status = .approvalRequired) ∨
      (engine.bounds e = false ∧ guardsClear current rule? e ∧ ∃ policyName clamped,
        d = statusForLevel e (effectiveLevel e.authorityRequested current rule?) risk
          consequences policyName (autonomyCeilingFor e.authorityRequested) clamped rule?) := by
  unfold PolicyEngine.evaluate at h
  cases hfind : engine.boundaryRules.find? (·.matchesEvent e) with
  | some boundary =>
    simp only [hfind, Except.ok.injEq] at h
    subst h
    have hmatch : boundary.matchesEvent e = true := by simpa using List.find?_some hfind
    exact Or.inl ⟨boundary, List.mem_of_find?_eq_some hfind, hmatch, rfl⟩
  | none =>
    have hbounds : engine.bounds e = false := by
      simpa [PolicyEngine.bounds] using hfind
    simp only [hfind] at h
    cases hgrant : grantingRule current rule? with
    | none =>
      simp only [hgrant, Except.ok.injEq] at h
      subst h
      have hclear : guardsClear current rule? e := by
        intro r hr
        rw [hgrant] at hr
        cases hr
      exact Or.inr (Or.inr ⟨hbounds, hclear, _, _, rfl⟩)
    | some rule =>
      simp only [hgrant] at h
      cases hguards : evaluateGuards rule.requiresApprovalIf e with
      | error err =>
        rw [hguards] at h
        cases h
      | ok triggered =>
        rw [hguards] at h
        cases triggered with
        | nil =>
          cases h
          refine Or.inr (Or.inr ⟨hbounds, fun r hr => ?_, _, _, rfl⟩)
          rw [hgrant] at hr
          cases hr
          exact hguards
        | cons name rest =>
          cases h
          refine Or.inr (Or.inl ⟨hbounds, fun hclear => ?_, rfl⟩)
          have := hclear rule hgrant
          rw [hguards] at this
          cases this

/-- With no boundary rule in the way and the guards clear, the rung decides. -/
theorem evaluate_of_clear (hbounds : engine.bounds e = false)
    (hclear : guardsClear current rule? e) : ∃ policyName clamped,
      engine.evaluate e current consequences risk rule? =
        .ok (statusForLevel e (effectiveLevel e.authorityRequested current rule?) risk
          consequences policyName (autonomyCeilingFor e.authorityRequested) clamped rule?) := by
  have hfind : engine.boundaryRules.find? (·.matchesEvent e) = none := by
    simpa [PolicyEngine.bounds] using hbounds
  unfold PolicyEngine.evaluate
  simp only [hfind]
  cases hgrant : grantingRule current rule? with
  | none => exact ⟨_, _, rfl⟩
  | some rule =>
    simp only [hclear rule hgrant]
    exact ⟨_, _, rfl⟩

/-- No boundary rule lets an action proceed. -/
def PolicyEngine.Strict (engine : PolicyEngine) : Prop :=
  ∀ b ∈ engine.boundaryRules, b.status.permissive = false

instance (engine : PolicyEngine) : Decidable engine.Strict :=
  inferInstanceAs (Decidable (∀ b ∈ engine.boundaryRules, b.status.permissive = false))

/-- With strict boundary rules, exactly what `evaluate` lets proceed. -/
theorem permissive_evaluate_iff (hstrict : engine.Strict) :
    (∃ d, engine.evaluate e current consequences risk rule? = .ok d ∧
        d.status.permissive = true) ↔
      engine.bounds e = false ∧ guardsClear current rule? e ∧
        ((isNonState e.authorityRequested = true ∧ e.requiresExecution = false) ∨
        ((effectiveLevel e.authorityRequested current rule?).value ≤
            AutonomyLevel.draft.value ∧ e.requiresExecution = false) ∨
        (AutonomyLevel.executeWithSampling.value ≤
            (effectiveLevel e.authorityRequested current rule?).value ∧
          ((e.meta? "anomaly").isTrue = false ∨
            (effectiveLevel e.authorityRequested current rule?).value <
              AutonomyLevel.exceptionBasedSupervision.value))) := by
  constructor
  · rintro ⟨d, hd, hperm⟩
    rcases evaluate_cases hd with ⟨b, hb, _, hstatus⟩ | ⟨_, _, hstatus⟩ |
      ⟨hbounds, hclear, policyName, clamped, rfl⟩
    · rw [hstatus, hstrict b hb] at hperm
      cases hperm
    · rw [hstatus] at hperm
      cases hperm
    · exact ⟨hbounds, hclear, (permissive_statusForLevel ..).mp hperm⟩
  · rintro ⟨hbounds, hclear, hrung⟩
    obtain ⟨policyName, clamped, heval⟩ :=
      @evaluate_of_clear engine e current consequences risk rule? hbounds hclear
    exact ⟨_, heval, (permissive_statusForLevel ..).mpr hrung⟩

end Evaluation

/-! ## Ceilings -/

/-- Under a ceiling that keeps a human in the loop, the effective level is
below the approval rung unless the ceiling is that rung and a level reaches it. -/
private theorem effective_le_draft_iff (e : WorkflowEvent) (current : AutonomyLevel)
    (rule? : Option DelegationRule) (hceiling : (autonomyCeilingFor e.authorityRequested).value ≤
      AutonomyLevel.executeWithApproval.value) :
    (effectiveLevel e.authorityRequested current rule?).value ≤ AutonomyLevel.draft.value ↔
      ¬ (autonomyCeilingFor e.authorityRequested = .executeWithApproval ∧
        (AutonomyLevel.executeWithApproval.value ≤ current.value ∨
          ∃ r, rule? = some r ∧
            AutonomyLevel.executeWithApproval.value ≤ r.autonomyLevel.value)) := by
  have happroval : AutonomyLevel.executeWithApproval.value = 3 := rfl
  have hdraft : AutonomyLevel.draft.value = 2 := rfl
  have hceil : autonomyCeilingFor e.authorityRequested = .executeWithApproval ↔
      3 ≤ (autonomyCeilingFor e.authorityRequested).value := by
    refine ⟨fun h => by rw [h]; decide, fun h => ?_⟩
    exact AutonomyLevel.value_injective (Nat.le_antisymm hceiling h)
  rw [happroval] at hceiling
  rw [hceil, value_effectiveLevel, hdraft, happroval]
  cases rule? with
  | none =>
    simp only [ruleLevelValue, reduceCtorEq, false_and, exists_false, or_false]
    omega
  | some r =>
    simp only [ruleLevelValue, Option.some.injEq, exists_eq_left']
    omega

private theorem not_guardsClear_iff (e : WorkflowEvent) (current : AutonomyLevel)
    (rule? : Option DelegationRule) :
    ¬ guardsClear current rule? e ↔
      ∃ r, rule? = some r ∧ current.value < r.autonomyLevel.value ∧
        evaluateGuards r.requiresApprovalIf e ≠ .ok [] := by
  cases rule? with
  | none => simp [guardsClear, grantingRule]
  | some r =>
    by_cases h : current.value < r.autonomyLevel.value <;> simp [guardsClear, grantingRule, h]

/-- A class whose ceiling keeps a human in the loop is denied exactly when a
boundary rule applies, a guard of the granting rule does not clear, the granted
level reaches the approval rung, or the event is marked as an execution.  What
is left over, an event that is not marked as an execution below that
rung, is let through as preparatory work whatever its class. -/
theorem evaluate_denies_iff {engine : PolicyEngine} (hstrict : engine.Strict)
    (e : WorkflowEvent) (current : AutonomyLevel) (consequences : List ConsequenceClass)
    (risk : RiskLevel) (rule? : Option DelegationRule)
    (hceiling : (autonomyCeilingFor e.authorityRequested).value ≤
      AutonomyLevel.executeWithApproval.value) :
    (∀ d, engine.evaluate e current consequences risk rule? = .ok d →
        d.status ≠ .allowed ∧ d.status ≠ .sampleReview) ↔
      (∃ b ∈ engine.boundaryRules, b.matchesEvent e = true) ∨
      (∃ r, rule? = some r ∧ current.value < r.autonomyLevel.value ∧
        evaluateGuards r.requiresApprovalIf e ≠ .ok []) ∨
      (autonomyCeilingFor e.authorityRequested = .executeWithApproval ∧
        (AutonomyLevel.executeWithApproval.value ≤ current.value ∨
          ∃ r, rule? = some r ∧
            AutonomyLevel.executeWithApproval.value ≤ r.autonomyLevel.value)) ∨
      e.requiresExecution = true := by
  have hdenied : (∀ d, engine.evaluate e current consequences risk rule? = .ok d →
        d.status ≠ .allowed ∧ d.status ≠ .sampleReview) ↔
      ¬ ∃ d, engine.evaluate e current consequences risk rule? = .ok d ∧
        d.status.permissive = true := by
    simp [AutonomyStatus.permissive, not_or]
  have hbelow : ¬ AutonomyLevel.executeWithSampling.value ≤
      (effectiveLevel e.authorityRequested current rule?).value := by
    have hsampling : AutonomyLevel.executeWithSampling.value = 4 := rfl
    have happroval : AutonomyLevel.executeWithApproval.value = 3 := rfl
    rw [value_effectiveLevel, hsampling]
    omega
  have hbound : engine.bounds e = false ↔
      ¬ ∃ b ∈ engine.boundaryRules, b.matchesEvent e = true := by
    simp [PolicyEngine.bounds]
  rw [hdenied, permissive_evaluate_iff hstrict, ← not_guardsClear_iff, hbound,
    effective_le_draft_iff e current rule? hceiling]
  simp only [isNonState_eq_false_of_ceiling hceiling, hbelow, Bool.false_eq_true, false_and,
    false_or, or_false]
  rw [not_and_or, not_not, not_and_or, not_and_or, not_not, Bool.not_eq_false]

/-- A proposal to delete data that is not marked as an execution. -/
def deletionNotice : WorkflowEvent where
  agentId := "agent"
  humanOwnerId := "owner"
  workflowId := "cleanup"
  workflowStage := "plan"
  eventType := .proposedAction
  intent := "remove stale rows"
  authorityRequested := .deleteData
  proposedNextState := "removed"
  expectedEffect := "rows are gone"
  evidence := []
  confidence := .fin 0
  requiresExecution := false
  nonce := "n1"
  signature := none
  eventId := "evt_1"
  timestamp := "2026-01-01T00:00:00+00:00"
  metadata := []

/-- Without boundary rules the ceiling of `DELETE_DATA` does not hold on its
own: an agent at the bottom of the ladder is answered `ALLOWED`. -/
theorem evaluate_allows_deletionNotice :
    PolicyEngine.Strict ⟨[]⟩ ∧
      autonomyCeilingFor deletionNotice.authorityRequested = .executeWithApproval ∧
      (PolicyEngine.evaluate ⟨[]⟩ deletionNotice .observeOnly [] .critical none).map
        PolicyDecision.status = .ok .allowed := by
  refine ⟨by decide, by decide, ?_⟩
  decide

/-- The same event marked as an execution is denied. -/
theorem evaluate_denies_deletion :
    PolicyEngine.Strict ⟨[]⟩ ∧
      ∀ d, PolicyEngine.evaluate ⟨[]⟩ { deletionNotice with requiresExecution := true }
        .observeOnly [] .critical none = .ok d → d.status ≠ .allowed ∧ d.status ≠ .sampleReview :=
  ⟨by decide, (evaluate_denies_iff (by decide)
    { deletionNotice with requiresExecution := true } .observeOnly [] .critical none
    (by decide)).mpr (Or.inr (Or.inr (Or.inr rfl)))⟩

end EarnedAutonomy
