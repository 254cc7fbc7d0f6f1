import EarnedAutonomy.Core.RuleSearch

/-!
# Monotonicity of the ladder

How the answer of the policy engine moves with the standing level of the agent,
everything else equal.

The guards of a rule that still grants at the higher level granted at the lower one
(`grantingRule_of_le`), so a higher level fires no guard that was clear.  What is left is the
order of the rungs (`asPermissive_rungStatus_iff`), which goes back in one place: work that
executes nothing is let through below the approval rung and held on it.
`evaluate_monotone_iff` says when that place is not met.
-/

namespace EarnedAutonomy

/-! ## Statuses in order -/

/-- The place of a status in the order of the ladder, the most permissive first. -/
def AutonomyStatus.strictness : AutonomyStatus → Option Nat
  | .allowed => some 0
  | .sampleReview => some 1
  | .approvalRequired => some 2
  | .escalate => none
  | .blocked => none

/-- The same status, or one that is not behind the other in the order. -/
def AutonomyStatus.AsPermissive (s' s : AutonomyStatus) : Prop :=
  s' = s ∨ ∃ m n, s'.strictness = some m ∧ s.strictness = some n ∧ m ≤ n

/-- An evaluation that is at least as permissive as another one: it answers where the other
one does. -/
def AsPermissive (after before : Except PyError PolicyDecision) : Prop :=
  ∀ d, before = .ok d → ∃ d', after = .ok d' ∧ d'.status.AsPermissive d.status

/-! ## The rungs in order -/

/-- Without an anomaly every rung answers with a status of the order. -/
theorem strictness_rungStatus {e : WorkflowEvent} (hanomaly : (e.meta? "anomaly").isTrue = false)
    (rung : AutonomyLevel) : ∃ n, (rungStatus e rung).strictness = some n ∧ n ≤ 2 := by
  cases rung <;> cases hn : isNonState e.authorityRequested <;>
    cases hx : e.requiresExecution <;>
    simp [rungStatus, AutonomyStatus.strictness, hn, hx, hanomaly]

/-- Of two rungs in order, the higher one is behind the lower one only if it holds or samples
work that executes nothing and that the lower one lets through. -/
theorem asPermissive_rungStatus_iff {e : WorkflowEvent}
    (hanomaly : (e.meta? "anomaly").isTrue = false) {rung rung' : AutonomyLevel}
    (h : rung.value ≤ rung'.value) :
    (rungStatus e rung').AsPermissive (rungStatus e rung) ↔
      isNonState e.authorityRequested = true ∨ e.requiresExecution = true ∨
        AutonomyLevel.draft.value < rung.value ∨ rung'.value ≤ AutonomyLevel.draft.value ∨
        AutonomyLevel.conditionalAutonomy.value ≤ rung'.value := by
  revert h
  cases hn : isNonState e.authorityRequested <;> cases hx : e.requiresExecution <;>
    cases rung <;> cases rung' <;>
    simp [rungStatus, AutonomyStatus.AsPermissive, AutonomyStatus.strictness,
      AutonomyLevel.value, hn, hx, hanomaly]

/-! ## Evaluations at two levels -/

section

variable {engine : PolicyEngine} {e : WorkflowEvent} {current current' : AutonomyLevel}
variable {consequences : List ConsequenceClass} {risk : RiskLevel}
variable {rule? : Option DelegationRule}

/-- What grants at the higher level grants at the lower one. -/
theorem grantingRule_of_le (h : current.value ≤ current'.value) {r : DelegationRule}
    (hgrant : grantingRule current' rule? = some r) : grantingRule current rule? = some r := by
  cases rule? with
  | none => cases hgrant
  | some rule =>
    simp only [grantingRule] at hgrant ⊢
    split at hgrant
    · rename_i habove
      rw [if_pos (by omega)]
      exact hgrant
    · cases hgrant

/-- Past the boundary rules, the higher level has the guards of the lower one or none. -/
theorem ruleGuards_of_le (h : current.value ≤ current'.value) :
    ruleGuards engine e current' rule? = ruleGuards engine e current rule? ∨
      ruleGuards engine e current' rule? = .ok [] := by
  unfold ruleGuards
  cases engine.boundary? e with
  | some b => exact Or.inr rfl
  | none =>
    cases hgrant : grantingRule current' rule? with
    | none => exact Or.inr rfl
    | some r =>
      rw [grantingRule_of_le h hgrant]
      exact Or.inl rfl

theorem effectiveLevel_mono (authority : AuthorityClass) (rule? : Option DelegationRule)
    (h : current.value ≤ current'.value) :
    (effectiveLevel authority current rule?).value ≤
      (effectiveLevel authority current' rule?).value := by
  rw [value_effectiveLevel, value_effectiveLevel]
  omega

variable (engine e consequences risk rule?) in
/-- An evaluation is compared with another one by the guards that fire and their status. -/
theorem asPermissive_evaluate_iff (current current' : AutonomyLevel) :
    AsPermissive (engine.evaluate e current' consequences risk rule?)
        (engine.evaluate e current consequences risk rule?) ↔
      ∀ fired, ruleGuards engine e current rule? = .ok fired →
        ∃ fired', ruleGuards engine e current' rule? = .ok fired' ∧
          (ruleStatus engine e current' rule? fired').AsPermissive
            (ruleStatus engine e current rule? fired) := by
  constructor
  · intro h fired hfired
    obtain ⟨d, hd, hdecided⟩ := evaluate_of_guards consequences risk hfired
    obtain ⟨d', hd', horder⟩ := h d hd
    obtain ⟨fired', hfired', hdecided'⟩ := decidedBy_of_evaluate hd'
    rw [hdecided.status, hdecided'.status] at horder
    exact ⟨fired', hfired', horder⟩
  · intro h d hd
    obtain ⟨fired, hfired, hdecided⟩ := decidedBy_of_evaluate hd
    obtain ⟨fired', hfired', horder⟩ := h fired hfired
    obtain ⟨d', hd', hdecided'⟩ := evaluate_of_guards consequences risk hfired'
    rw [← hdecided.status, ← hdecided'.status] at horder
    exact ⟨d', hd', horder⟩

/-- Past the boundary rules, the guards are clear when none fires. -/
theorem ruleGuards_eq_nil_iff (hbound : engine.boundary? e = none) :
    ruleGuards engine e current rule? = .ok [] ↔ guardsClear current rule? e := by
  unfold ruleGuards guardsClear
  rw [hbound]
  cases grantingRule current rule? with
  | none => simp
  | some r => simp

theorem boundary_eq_none_iff : engine.boundary? e = none ↔ engine.bounds e = false := by
  simp [PolicyEngine.boundary?, PolicyEngine.bounds]

/-- For an event that flags no anomaly and two standing levels in order, the evaluation at the
higher one is at least as permissive exactly when a boundary rule applies, the event is a read
or is marked as an execution, the guards of the rule that grants at the lower level are not
clear, the lower level or the rule reaches the approval rung, or the higher level, cut at the
ceiling, is not that rung or the one above it. -/
theorem evaluate_monotone_iff (engine : PolicyEngine) (e : WorkflowEvent)
    (consequences : List ConsequenceClass) (risk : RiskLevel) (rule? : Option DelegationRule)
    {current current' : AutonomyLevel} (hanomaly : (e.meta? "anomaly").isTrue = false)
    (h : current.value ≤ current'.value) :
    AsPermissive (engine.evaluate e current' consequences risk rule?)
        (engine.evaluate e current consequences risk rule?) ↔
      engine.bounds e = true ∨ isNonState e.authorityRequested = true ∨
        e.requiresExecution = true ∨ ¬ guardsClear current rule? e ∨
        AutonomyLevel.draft.value < current.value ∨
        AutonomyLevel.draft.value < ruleLevelValue rule? ∨
        min current'.value (autonomyCeilingFor e.authorityRequested).value ≤
          AutonomyLevel.draft.value ∨
        AutonomyLevel.conditionalAutonomy.value ≤
          min current'.value (autonomyCeilingFor e.authorityRequested).value := by
  rw [asPermissive_evaluate_iff]
  cases hbound : engine.boundary? e with
  | some b =>
    have hbounds : engine.bounds e = true := by
      cases hb : engine.bounds e with
      | true => rfl
      | false =>
        rw [boundary_eq_none_iff.mpr hb] at hbound
        cases hbound
    simp only [hbounds, true_or, iff_true]
    refine fun fired _ => ⟨[], by simp [ruleGuards, hbound], ?_⟩
    rw [ruleStatus, ruleStatus, hbound]
    exact Or.inl rfl
  | none =>
    rw [boundary_eq_none_iff.mp hbound, ← ruleGuards_eq_nil_iff hbound]
    by_cases hclear : ruleGuards engine e current rule? = .ok []
    · -- nothing fires at either level, and the rungs decide
      have hclear' : ruleGuards engine e current' rule? = .ok [] := by
        rcases ruleGuards_of_le h with hsame | hnil
        · rw [hsame, hclear]
        · exact hnil
      have hstatus : ∀ level, ruleStatus engine e level rule? [] =
          rungStatus e (effectiveLevel e.authorityRequested level rule?) := by
        intro level
        simp [ruleStatus, hbound]
      simp only [hclear, hclear', Except.ok.injEq, forall_eq', exists_eq_left', hstatus,
        Bool.false_eq_true, not_true_eq_false, false_or]
      rw [asPermissive_rungStatus_iff hanomaly (effectiveLevel_mono _ rule? h),
        value_effectiveLevel, value_effectiveLevel]
      have hdraft : AutonomyLevel.draft.value = 2 := rfl
      have hconditional : AutonomyLevel.conditionalAutonomy.value = 5 := rfl
      refine or_congr_right (or_congr_right ?_)
      omega
    · simp only [hclear, not_false_eq_true, true_or, or_true, iff_true]
      intro fired hfired
      have hheld : ruleStatus engine e current rule? fired = .approvalRequired := by
        cases fired with
        | nil => exact absurd hfired hclear
        | cons name rest => simp [ruleStatus, hbound]
      rw [hheld]
      -- the same guards fire at the higher level, or the rule grants nothing there
      rcases ruleGuards_of_le h with hsame | hnil
      · refine ⟨fired, hsame.trans hfired, Or.inl ?_⟩
        cases fired with
        | nil => exact absurd hfired hclear
        | cons name rest => simp [ruleStatus, hbound]
      · obtain ⟨n, hn, hle⟩ :=
          strictness_rungStatus hanomaly (effectiveLevel e.authorityRequested current' rule?)
        refine ⟨[], hnil, Or.inr ⟨n, 2, ?_, rfl, hle⟩⟩
        simpa [ruleStatus, hbound] using hn

end

/-- A change of an internal record that is not marked as an execution. -/
def recordNote : WorkflowEvent :=
  { deletionNotice with authorityRequested := .modifyInternalRecord }

/-- Under the default boundary rules the step from drafting to execution under approval takes
away what an agent that drafts may do. -/
theorem ladder_goes_back :
    (recordNote.meta? "anomaly").isTrue = false ∧
      AutonomyLevel.draft.value ≤ AutonomyLevel.executeWithApproval.value ∧
      ¬ AsPermissive (PolicyEngine.evaluate ⟨defaultBoundaryRules⟩ recordNote
          .executeWithApproval [] .low none)
        (PolicyEngine.evaluate ⟨defaultBoundaryRules⟩ recordNote .draft [] .low none) := by
  have hanomaly : (recordNote.meta? "anomaly").isTrue = false := by decide
  have hlevels : AutonomyLevel.draft.value ≤ AutonomyLevel.executeWithApproval.value := by decide
  refine ⟨hanomaly, hlevels, fun h => ?_⟩
  have hbefore : (PolicyEngine.evaluate ⟨defaultBoundaryRules⟩ recordNote .draft [] .low
      none).map PolicyDecision.status = .ok .allowed := by decide
  have hafter : (PolicyEngine.evaluate ⟨defaultBoundaryRules⟩ recordNote .executeWithApproval
      [] .low none).map PolicyDecision.status = .ok .approvalRequired := by decide
  cases hd : PolicyEngine.evaluate ⟨defaultBoundaryRules⟩ recordNote .draft [] .low none with
  | error err =>
    rw [hd] at hbefore
    cases hbefore
  | ok d =>
    obtain ⟨d', hd', hstatus⟩ := h d hd
    rw [hd] at hbefore
    rw [hd'] at hafter
    simp only [Except.map, Except.ok.injEq] at hbefore hafter
    rw [hbefore, hafter] at hstatus
    simp [AutonomyStatus.AsPermissive, AutonomyStatus.strictness] at hstatus

/-- The same change marked as an execution gains with every step up to full delegation. -/
theorem execution_keeps_order :
    AsPermissive
      (PolicyEngine.evaluate ⟨defaultBoundaryRules⟩ { recordNote with requiresExecution := true }
        .delegatedAuthority [] .low none)
      (PolicyEngine.evaluate ⟨defaultBoundaryRules⟩ { recordNote with requiresExecution := true }
        .draft [] .low none) :=
  (evaluate_monotone_iff ⟨defaultBoundaryRules⟩ { recordNote with requiresExecution := true }
    [] .low none (by decide) (by decide)).mpr (Or.inr (Or.inr (Or.inl rfl)))

end EarnedAutonomy
