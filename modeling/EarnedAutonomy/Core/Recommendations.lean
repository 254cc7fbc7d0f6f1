import EarnedAutonomy.Core.Ontology
import EarnedAutonomy.Core.Trust

/-!
# Recommendations

`core/recommendations.py`: which level the history of a key supports.  Incidents
pin the level, then a high rejection rate does, then the highest rung below the
ceiling wins whose sample size, lower bound and edit rate are all met.

`recommend` computes the recommendation without its id and its time, which
`AutonomyRecommendation` is given when the control plane makes one.
-/

namespace EarnedAutonomy

open Arithmetic

/-- The sample sizes for one risk level. -/
structure SampleSizes where
  sampling : Nat
  conditional : Nat
  exception : Nat
  delegated : Nat

/-- `SAMPLES_BY_RISK` -/
def samplesByRisk : RiskLevel → SampleSizes
  | .low => ⟨8, 20, 50, 120⟩
  | .medium => ⟨20, 60, 150, 400⟩
  | .high => ⟨60, 200, 10 ^ 9, 10 ^ 9⟩
  | .critical => ⟨10 ^ 9, 10 ^ 9, 10 ^ 9, 10 ^ 9⟩

/-- A rung of the ladder with what it takes to reach it: the sample size, the
lower bound and the edit rate, the last two in hundredths. -/
structure Rung where
  level : AutonomyLevel
  samples : SampleSizes → Nat
  lowerBound : Nat
  maxEditRate : Nat

/-- The rungs that can be earned, the highest first, with `LB_THRESHOLDS` and
`MAX_EDIT_RATE`. -/
def ladder : List Rung := [
  ⟨.delegatedAuthority, SampleSizes.delegated, 95, 3⟩,
  ⟨.exceptionBasedSupervision, SampleSizes.exception, 93, 5⟩,
  ⟨.conditionalAutonomy, SampleSizes.conditional, 88, 10⟩,
  ⟨.executeWithSampling, SampleSizes.sampling, 80, 20⟩]

/-- The parts of a recommendation that the history decides. -/
structure Advice (F : Type) where
  currentLevel : AutonomyLevel
  recommendedLevel : AutonomyLevel
  confidence : F
  reason : String
  autonomyCeiling : AutonomyLevel

section

variable {F : Type} [Arithmetic F]

/-- The evidence supports the rung. -/
def Rung.supported (r : Rung) (s : TrustStats) (bound : F) : Bool :=
  Nat.ble (r.samples (samplesByRisk (baseRiskFor s.authorityClass))) s.totalDecisions &&
    le (decimal r.lowerBound 2) bound && le (s.editRate : F) (decimal r.maxEditRate 2)

/-- The higher of two levels, the first on a tie. -/
def AutonomyLevel.raisedTo (a b : AutonomyLevel) : AutonomyLevel :=
  if a.value < b.value then b else a

/-- `recommend`, up to `_finalize` -/
def recommend (current : AutonomyLevel) (s : TrustStats) : Advice F :=
  let ceiling := autonomyCeilingFor s.authorityClass
  let bound : F := s.cleanApprovalLowerBound
  let advice (level : AutonomyLevel) (confidence : F) (reason : String) : Advice F :=
    ⟨current, level.cappedAt ceiling, confidence, reason, ceiling⟩
  if 0 < s.incidents then
    advice (current.cappedAt .executeWithApproval) (decimal 99 2)
      "Incident history pins autonomy to approval-required."
  else if (Nat.ble (samplesByRisk (baseRiskFor s.authorityClass)).sampling s.totalDecisions &&
      le (decimal 25 2) (s.rejectionRate : F)) = true then
    advice (current.cappedAt .executeWithApproval)
      (if lt (s.rejectionRate : F) (decimal 9 1) then s.rejectionRate else decimal 9 1)
      "High rejection rate; approval should remain required."
  else
    match ladder.find? fun r => Nat.ble r.level.value ceiling.value && r.supported s bound with
    | some r =>
        advice (current.raisedTo r.level) bound
          ("Wilson lower bound " ++ fixed3 bound ++ " over " ++ toString s.totalDecisions ++
            " clean decisions supports " ++ r.level.label ++ " (ceiling " ++ ceiling.label ++ ").")
    | none => advice current bound "Not enough clean, distinct evidence to change autonomy."

/-- The rule a relaxation proposes, with its id and its time. -/
def suggestedRule (s : TrustStats) (level : AutonomyLevel) (ruleId createdAt : String) :
    DelegationRule where
  ruleName := .utf8 ("Suggested " ++ level.label ++ " for " ++ s.agentId ++ "/" ++ s.workflowId ++
    "/" ++ s.authorityClass.value)
  workflowId := s.workflowId
  agentId := s.agentId
  authorityClass := s.authorityClass
  autonomyLevel := level
  conditions := [("evidence_required", .bool true)]
  requiresApprovalIf := ["missing_source_evidence", "low_confidence", "external_effect",
    "irreversible", "anomaly_detected", "policy_boundary_matched"]
  sampleRate :=
    if AutonomyLevel.executeWithSampling.value ≤ level.value then .exact 3602879701896397 54
    else .fin 0
  ruleId := ruleId
  createdAt := createdAt

end

/-- A recommendation with the rule it proposes. -/
structure AutonomyRecommendation (F : Type) where
  agentId : String
  workflowId : String
  authorityClass : AuthorityClass
  advice : Advice F
  proposedRule : Option DelegationRule
  requiresSecondApprover : Bool
  recommendationId : String
  createdAt : String

def AutonomyRecommendation.toDict {F : Type} [Arithmetic F] (r : AutonomyRecommendation F) :
    PyVal :=
  .dict [
    ("recommendation_id", .text r.recommendationId),
    ("agent_id", .text r.agentId),
    ("workflow_id", .text r.workflowId),
    ("authority_class", .text r.authorityClass.value),
    ("current_level", .int r.advice.currentLevel.value),
    ("current_level_label", .text r.advice.currentLevel.label),
    ("recommended_level", .int r.advice.recommendedLevel.value),
    ("recommended_level_label", .text r.advice.recommendedLevel.label),
    ("autonomy_ceiling", .int r.advice.autonomyCeiling.value),
    ("autonomy_ceiling_label", .text r.advice.autonomyCeiling.label),
    ("confidence", .float (toFloat r.advice.confidence)),
    ("reason", .text r.advice.reason),
    ("requires_second_approver", .bool r.requiresSecondApprover),
    ("proposed_rule", match r.proposedRule with
      | some rule => rule.toDict
      | none => .none),
    ("created_at", .text r.createdAt)]

/-! ## What a recommendation can be -/

section

variable {F : Type} [Arithmetic F]

/-- A recommendation is never above the ceiling. -/
theorem recommend_le_ceiling (current : AutonomyLevel) (s : TrustStats) :
    (recommend (F := F) current s).recommendedLevel.value ≤
      (autonomyCeilingFor s.authorityClass).value := by
  unfold recommend
  dsimp only
  split
  · rw [AutonomyLevel.value_cappedAt]
    omega
  · split
    · rw [AutonomyLevel.value_cappedAt]
      omega
    · split <;> rw [AutonomyLevel.value_cappedAt] <;> omega

/-- After an incident no recommendation goes beyond approval. -/
theorem recommend_le_of_incidents (current : AutonomyLevel) (s : TrustStats)
    (h : 0 < s.incidents) :
    (recommend (F := F) current s).recommendedLevel.value ≤
      AutonomyLevel.executeWithApproval.value := by
  unfold recommend
  rw [if_pos h]
  simp only [AutonomyLevel.value_cappedAt]
  omega

end

end EarnedAutonomy
