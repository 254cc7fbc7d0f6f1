import EarnedAutonomy.Python.Encoding

/-!
# The records of the control plane

The enumerations and dataclasses of `core/models.py`: agents, workflow events,
policy decisions, approval decisions, delegation rules, capability tokens and
audit records, with the dictionaries they are written as and the payloads that
are signed.

Two loops compare a mapping of conditions with the values at hand: `conditionsMet`
is the one of `DelegationRule.matches`, and `conditionFailure` the one of the token
check in `core/capability.py`, which names the condition that fails.  They agree
(`conditionsMet_eq`), and `matchesEvent` is written with the second.
-/

namespace EarnedAutonomy

open OrderedDict

/-! ## Enumerations -/

/-- What an agent reports. -/
inductive WorkflowEventType where
  | startedWorkflow
  | observed
  | reasoned
  | proposedAction
  | requestedAuthority
  | executedAction
  | effectAttested
  | completedWorkflow
  | exception
  | feedbackReceived
  deriving DecidableEq

/-- The text a member is stored as. -/
def WorkflowEventType.value : WorkflowEventType → String
  | .startedWorkflow => "agent.started_workflow"
  | .observed => "agent.observed"
  | .reasoned => "agent.reasoned"
  | .proposedAction => "agent.proposed_action"
  | .requestedAuthority => "agent.requested_authority"
  | .executedAction => "agent.executed_action"
  | .effectAttested => "agent.attested_effect"
  | .completedWorkflow => "agent.completed_workflow"
  | .exception => "agent.encountered_exception"
  | .feedbackReceived => "agent.received_human_feedback"

/-- The members of the enumeration. -/
def WorkflowEventType.members : List WorkflowEventType := [
  .startedWorkflow, .observed, .reasoned, .proposedAction, .requestedAuthority, .executedAction,
  .effectAttested, .completedWorkflow, .exception, .feedbackReceived]

theorem WorkflowEventType.mem_members (t : WorkflowEventType) : t ∈ members := by
  cases t <;> decide

/-- Two event types never share a text. -/
theorem WorkflowEventType.value_injective {a b : WorkflowEventType} (h : a.value = b.value) :
    a = b := by
  have hnodup : (members.map value).Nodup := by decide +kernel
  exact List.inj_on_of_nodup_map hnodup a.mem_members b.mem_members h

/-- The kinds of authority an agent can ask for. -/
inductive AuthorityClass where
  | observe
  | search
  | summarize
  | classify
  | score
  | recommend
  | draft
  | modifyInternalRecord
  | modifyExternalRecord
  | communicateInternally
  | communicateExternally
  | schedule
  | commitCommercialPosition
  | offerPricingOrDiscount
  | changeLegalPosition
  | spendMoney
  | transferValue
  | grantAccess
  | revokeAccess
  | deleteData
  | modifyProductionSystem
  | bindOrganization
  | escalateToHuman
  deriving DecidableEq

/-- The text a member is stored as. -/
def AuthorityClass.value : AuthorityClass → String
  | .observe => "observe"
  | .search => "search"
  | .summarize => "summarize"
  | .classify => "classify"
  | .score => "score"
  | .recommend => "recommend"
  | .draft => "draft"
  | .modifyInternalRecord => "modify_internal_record"
  | .modifyExternalRecord => "modify_external_record"
  | .communicateInternally => "communicate_internally"
  | .communicateExternally => "communicate_externally"
  | .schedule => "schedule"
  | .commitCommercialPosition => "commit_commercial_position"
  | .offerPricingOrDiscount => "offer_pricing_or_discount"
  | .changeLegalPosition => "change_legal_position"
  | .spendMoney => "spend_money"
  | .transferValue => "transfer_value"
  | .grantAccess => "grant_access"
  | .revokeAccess => "revoke_access"
  | .deleteData => "delete_data"
  | .modifyProductionSystem => "modify_production_system"
  | .bindOrganization => "bind_organization"
  | .escalateToHuman => "escalate_to_human"

/-- The kinds of consequence an action can have. -/
inductive ConsequenceClass where
  | informational
  | internalOnly
  | internalRecordChange
  | externalFacing
  | customerImpacting
  | financial
  | legal
  | securitySensitive
  | productionImpacting
  | irreversible
  | reputational
  | regulated
  deriving DecidableEq

/-- The text a member is stored as. -/
def ConsequenceClass.value : ConsequenceClass → String
  | .informational => "informational"
  | .internalOnly => "internal_only"
  | .internalRecordChange => "internal_record_change"
  | .externalFacing => "external_facing"
  | .customerImpacting => "customer_impacting"
  | .financial => "financial"
  | .legal => "legal"
  | .securitySensitive => "security_sensitive"
  | .productionImpacting => "production_impacting"
  | .irreversible => "irreversible"
  | .reputational => "reputational"
  | .regulated => "regulated"

/-- The risk of an action. -/
inductive RiskLevel where
  | low
  | medium
  | high
  | critical
  deriving DecidableEq

/-- The text a member is stored as. -/
def RiskLevel.value : RiskLevel → String
  | .low => "low"
  | .medium => "medium"
  | .high => "high"
  | .critical => "critical"

/-- The decision of a human about one event. -/
inductive ApprovalOutcome where
  | approved
  | rejected
  | modifiedAndApproved
  | moreEvidenceRequested
  | escalated
  | convertedToDelegationRule
  deriving DecidableEq

/-- The text a member is stored as. -/
def ApprovalOutcome.value : ApprovalOutcome → String
  | .approved => "approved"
  | .rejected => "rejected"
  | .modifiedAndApproved => "modified_and_approved"
  | .moreEvidenceRequested => "more_evidence_requested"
  | .escalated => "escalated"
  | .convertedToDelegationRule => "converted_to_delegation_rule"

/-- The answer of the policy engine. -/
inductive AutonomyStatus where
  | allowed
  | approvalRequired
  | sampleReview
  | escalate
  | blocked
  deriving DecidableEq

/-- The text a member is stored as. -/
def AutonomyStatus.value : AutonomyStatus → String
  | .allowed => "allowed"
  | .approvalRequired => "approval_required"
  | .sampleReview => "sample_review"
  | .escalate => "escalate"
  | .blocked => "blocked"

/-- The rungs of the autonomy ladder. -/
inductive AutonomyLevel where
  | observeOnly
  | suggest
  | draft
  | executeWithApproval
  | executeWithSampling
  | conditionalAutonomy
  | exceptionBasedSupervision
  | delegatedAuthority
  deriving DecidableEq

namespace AutonomyLevel

/-- The rung as a number. -/
def value : AutonomyLevel → Nat
  | .observeOnly => 0
  | .suggest => 1
  | .draft => 2
  | .executeWithApproval => 3
  | .executeWithSampling => 4
  | .conditionalAutonomy => 5
  | .exceptionBasedSupervision => 6
  | .delegatedAuthority => 7

def label : AutonomyLevel → String
  | .observeOnly => "Observe Only"
  | .suggest => "Suggest"
  | .draft => "Draft"
  | .executeWithApproval => "Execute With Approval"
  | .executeWithSampling => "Execute With Sampling"
  | .conditionalAutonomy => "Conditional Autonomy"
  | .exceptionBasedSupervision => "Exception-Based Supervision"
  | .delegatedAuthority => "Delegated Authority"

/-- `AutonomyLevel(n)`, which raises outside the ladder. -/
def ofValue (n : Int) : Except PyError AutonomyLevel :=
  if n = 0 then .ok .observeOnly
  else if n = 1 then .ok .suggest
  else if n = 2 then .ok .draft
  else if n = 3 then .ok .executeWithApproval
  else if n = 4 then .ok .executeWithSampling
  else if n = 5 then .ok .conditionalAutonomy
  else if n = 6 then .ok .exceptionBasedSupervision
  else if n = 7 then .ok .delegatedAuthority
  else .error .valueError

theorem value_injective {a b : AutonomyLevel} (h : a.value = b.value) : a = b := by
  cases a <;> cases b <;> first | rfl | cases h

@[simp] theorem ofValue_value (a : AutonomyLevel) : ofValue a.value = .ok a := by
  cases a <;> rfl

/-- The level with the smaller number, the first on a tie. -/
def cappedAt (a b : AutonomyLevel) : AutonomyLevel := if b.value < a.value then b else a

theorem value_cappedAt (a b : AutonomyLevel) : (a.cappedAt b).value = min a.value b.value := by
  unfold cappedAt
  split <;> omega

end AutonomyLevel

/-- The members of the enumeration. -/
def AuthorityClass.members : List AuthorityClass := [
  .observe, .search, .summarize, .classify, .score, .recommend, .draft, .modifyInternalRecord,
  .modifyExternalRecord, .communicateInternally, .communicateExternally, .schedule,
  .commitCommercialPosition, .offerPricingOrDiscount, .changeLegalPosition, .spendMoney,
  .transferValue, .grantAccess, .revokeAccess, .deleteData, .modifyProductionSystem,
  .bindOrganization, .escalateToHuman]

theorem AuthorityClass.mem_members (c : AuthorityClass) : c ∈ members := by
  cases c <;> decide

/-- Two authority classes never share a text. -/
theorem AuthorityClass.value_injective {a b : AuthorityClass} (h : a.value = b.value) :
    a = b := by
  have hnodup : (members.map value).Nodup := by decide +kernel
  exact List.inj_on_of_nodup_map hnodup a.mem_members b.mem_members h

theorem AuthorityClass.colon_notMem_value (c : AuthorityClass) : ':' ∉ c.value.toList := by
  cases c <;> decide

/-- The last occurrence of an element splits a list in one way. -/
theorem eq_of_append_cons_eq {α : Type} {a : α} {x x' y y' : List α} (hy : a ∉ y) (hy' : a ∉ y')
    (h : x ++ a :: y = x' ++ a :: y') : x = x' ∧ y = y' := by
  rcases List.append_eq_append_iff.mp h with ⟨mid, rfl, hmid⟩ | ⟨mid, rfl, hmid⟩
  · cases mid with
    | nil =>
      rw [List.nil_append, List.cons.injEq] at hmid
      exact ⟨(List.append_nil _).symm, hmid.2⟩
    | cons b mid =>
      rw [List.cons_append, List.cons.injEq] at hmid
      rw [hmid.2] at hy
      exact absurd (List.mem_append_right _ List.mem_cons_self) hy
  · cases mid with
    | nil =>
      rw [List.nil_append, List.cons.injEq] at hmid
      exact ⟨List.append_nil _, hmid.2.symm⟩
    | cons b mid =>
      rw [List.cons_append, List.cons.injEq] at hmid
      rw [hmid.2] at hy'
      exact absurd (List.mem_append_right _ List.mem_cons_self) hy'

/-! ## Agents -/

/-- An entry of the agent registry. -/
structure AgentIdentity where
  agentId : String
  name : PyStr
  ownerId : String
  purpose : PyStr
  publicKeyHex : Option String
  approvedWorkflows : List String
  currentAutonomy : Dict String Int
  knownLimitations : List PyStr
  incidentCount : Int
  active : Bool
  createdAt : String

namespace AgentIdentity

/-- The key a standing level is stored under. -/
def autonomyKey (workflowId : String) (authorityClass : AuthorityClass) : String :=
  workflowId ++ ":" ++ authorityClass.value

/-- The text of a class has no colon, so a key is that of one scope. -/
theorem autonomyKey_injective {w w' : String} {c c' : AuthorityClass}
    (h : autonomyKey w c = autonomyKey w' c') : w = w' ∧ c = c' := by
  have hlist := congrArg String.toList h
  simp only [autonomyKey, String.toList_append, List.append_assoc] at hlist
  obtain ⟨hw, hc⟩ := eq_of_append_cons_eq c.colon_notMem_value c'.colon_notMem_value hlist
  exact ⟨String.toList_inj.mp hw, AuthorityClass.value_injective (String.toList_inj.mp hc)⟩
/-- The standing level, `OBSERVE_ONLY` unless one was set. -/
def autonomyFor (a : AgentIdentity) (workflowId : String) (authorityClass : AuthorityClass) :
    Except PyError AutonomyLevel :=
  AutonomyLevel.ofValue
    ((Dict.get? a.currentAutonomy (autonomyKey workflowId authorityClass)).getD
      AutonomyLevel.observeOnly.value)

/-- Store a standing level. -/
def setAutonomy (a : AgentIdentity) (workflowId : String) (authorityClass : AuthorityClass)
    (level : AutonomyLevel) : AgentIdentity :=
  { a with currentAutonomy :=
      Dict.set a.currentAutonomy (autonomyKey workflowId authorityClass) level.value }

def toDict (a : AgentIdentity) : PyVal :=
  .dict [
    ("agent_id", .text a.agentId),
    ("name", .str a.name),
    ("owner_id", .text a.ownerId),
    ("purpose", .str a.purpose),
    ("public_key_hex", .optText a.publicKeyHex),
    ("approved_workflows", textsToVal a.approvedWorkflows),
    ("current_autonomy", .dict (a.currentAutonomy.map fun e => (.str e.1, .int e.2))),
    ("known_limitations", .list (a.knownLimitations.map .str)),
    ("incident_count", .int a.incidentCount),
    ("active", .bool a.active),
    ("created_at", .text a.createdAt)]

@[simp] theorem setAutonomy_agentId (a : AgentIdentity) (w : String) (c : AuthorityClass)
    (l : AutonomyLevel) : (a.setAutonomy w c l).agentId = a.agentId := rfl

@[simp] theorem setAutonomy_ownerId (a : AgentIdentity) (w : String) (c : AuthorityClass)
    (l : AutonomyLevel) : (a.setAutonomy w c l).ownerId = a.ownerId := rfl

/-- The level that was set is the level that is read. -/
@[simp] theorem autonomyFor_setAutonomy (a : AgentIdentity) (w : String) (c : AuthorityClass)
    (l : AutonomyLevel) : (a.setAutonomy w c l).autonomyFor w c = .ok l := by
  simp [autonomyFor, setAutonomy]

end AgentIdentity

/-! ## Workflow events -/

structure EvidenceItem where
  source : PyStr
  claim : PyStr
  url : Option PyStr
  confidence : Option PyFloat
  metadata : Mapping

/-- An optional free text as a value. -/
def PyVal.optStr : Option PyStr → PyVal
  | some s => .str s
  | Option.none => .none

def EvidenceItem.toDict (e : EvidenceItem) : PyVal :=
  .dict [
    ("source", .str e.source),
    ("claim", .str e.claim),
    ("url", .optStr e.url),
    ("confidence", match e.confidence with
      | some f => .float f
      | none => .none),
    ("metadata", e.metadata.toVal)]

/-- An action an agent proposes. -/
structure WorkflowEvent where
  agentId : String
  humanOwnerId : String
  workflowId : String
  workflowStage : PyStr
  eventType : WorkflowEventType
  intent : PyStr
  authorityRequested : AuthorityClass
  proposedNextState : PyStr
  expectedEffect : PyStr
  evidence : List EvidenceItem
  confidence : PyFloat
  requiresExecution : Bool
  nonce : String
  signature : Option String
  eventId : String
  timestamp : String
  metadata : Mapping

namespace WorkflowEvent

/-- What the agent signs: every field the server does not assign. -/
def signingDict (e : WorkflowEvent) : PyVal :=
  .dict [
    ("agent_id", .text e.agentId),
    ("human_owner_id", .text e.humanOwnerId),
    ("workflow_id", .text e.workflowId),
    ("workflow_stage", .str e.workflowStage),
    ("event_type", .text e.eventType.value),
    ("intent", .str e.intent),
    ("authority_requested", .text e.authorityRequested.value),
    ("proposed_next_state", .str e.proposedNextState),
    ("expected_effect", .str e.expectedEffect),
    ("evidence", .list (e.evidence.map EvidenceItem.toDict)),
    ("confidence", .float e.confidence),
    ("requires_execution", .bool e.requiresExecution),
    ("nonce", .text e.nonce),
    ("metadata", e.metadata.toVal)]

def signingPayload (e : WorkflowEvent) : Except PyError Bytes := canonicalBytes e.signingDict

def toDict (e : WorkflowEvent) : PyVal :=
  .dict [
    ("agent_id", .text e.agentId),
    ("human_owner_id", .text e.humanOwnerId),
    ("workflow_id", .text e.workflowId),
    ("workflow_stage", .str e.workflowStage),
    ("event_type", .text e.eventType.value),
    ("intent", .str e.intent),
    ("authority_requested", .text e.authorityRequested.value),
    ("proposed_next_state", .str e.proposedNextState),
    ("expected_effect", .str e.expectedEffect),
    ("evidence", .list (e.evidence.map EvidenceItem.toDict)),
    ("confidence", .float e.confidence),
    ("requires_execution", .bool e.requiresExecution),
    ("nonce", .text e.nonce),
    ("signature", .optText e.signature),
    ("event_id", .text e.eventId),
    ("timestamp", .text e.timestamp),
    ("metadata", e.metadata.toVal)]

/-- `event.metadata.get(key)` -/
def meta? (e : WorkflowEvent) (key : PyStr) : PyVal := (Dict.get? e.metadata key).getD .none

end WorkflowEvent

/-! ## Decisions -/

/-- The answer of the policy engine and what it was based on. -/
structure PolicyDecision where
  status : AutonomyStatus
  riskLevel : RiskLevel
  consequenceClasses : List ConsequenceClass
  reason : PyStr
  policyName : Option PyStr := none
  requiredApproverRole : Option PyStr := none
  sampleRate : PyFloat := .fin 0
  autonomyCeiling : Option Nat := none
  triggeredGuards : List String := []

def PolicyDecision.toDict (d : PolicyDecision) : PyVal :=
  .dict [
    ("status", .text d.status.value),
    ("risk_level", .text d.riskLevel.value),
    ("consequence_classes", textsToVal (d.consequenceClasses.map ConsequenceClass.value)),
    ("reason", .str d.reason),
    ("policy_name", .optStr d.policyName),
    ("required_approver_role", .optStr d.requiredApproverRole),
    ("sample_rate", .float d.sampleRate),
    ("autonomy_ceiling", match d.autonomyCeiling with
      | some n => .int n
      | none => .none),
    ("triggered_guards", textsToVal d.triggeredGuards)]

/-- The decision of a human about one event. -/
structure ApprovalDecision where
  eventId : String
  approverId : String
  outcome : ApprovalOutcome
  approverRole : Option PyStr
  rationale : PyStr
  modifications : Mapping
  conditions : List PyStr
  createdDelegationRuleId : Option String
  decisionId : String
  timestamp : String

def ApprovalDecision.toDict (d : ApprovalDecision) : PyVal :=
  .dict [
    ("event_id", .text d.eventId),
    ("approver_id", .text d.approverId),
    ("outcome", .text d.outcome.value),
    ("approver_role", .optStr d.approverRole),
    ("rationale", .str d.rationale),
    ("modifications", d.modifications.toVal),
    ("conditions", .list (d.conditions.map .str)),
    ("created_delegation_rule_id", .optText d.createdDelegationRuleId),
    ("decision_id", .text d.decisionId),
    ("timestamp", .text d.timestamp)]

/-! ## Conditions -/

/-- How a value can miss the expectation of a condition. -/
inductive ConditionFailure where
  | belowMin
  | aboveMax
  | notInAllowedSet
  | mismatch
  deriving DecidableEq

/-- Compare one value with one expectation: a `dict` bounds it, a `list` names
the allowed values, anything else is the value itself. -/
def checkExpectation (expected actual : PyVal) : Except PyError (Option ConditionFailure) :=
  match expected with
  | .dict bounds => do
      let minimum := (PyVal.lookup bounds "min").getD .none
      let maximum := (PyVal.lookup bounds "max").getD .none
      let tooSmall ← match minimum, actual with
        | .none, _ => pure false
        | _, .none => pure true
        | m, a => a.lt m
      if tooSmall then return some .belowMin
      let tooLarge ← match maximum, actual with
        | .none, _ => pure false
        | _, .none => pure true
        | m, a => m.lt a
      if tooLarge then return some .aboveMax
      return none
  | .list allowed =>
      if PyVal.isIn actual allowed then .ok none else .ok (some .notInAllowedSet)
  | expected => if actual.eq expected then .ok none else .ok (some .mismatch)

/-- The value is below a bound that is there. -/
def tooSmall (minimum actual : PyVal) : Except PyError Bool :=
  match minimum, actual with
  | .none, _ => .ok false
  | _, .none => .ok true
  | m, a => a.lt m

/-- The value is above a bound that is there. -/
def tooLarge (maximum actual : PyVal) : Except PyError Bool :=
  match maximum, actual with
  | .none, _ => .ok false
  | _, .none => .ok true
  | m, a => m.lt a

/-- The bound of a `dict` of bounds, `None` if there is none. -/
def boundOf (bounds : List (PyKey × PyVal)) (key : PyKey) : PyVal :=
  (PyVal.lookup bounds key).getD .none

theorem checkExpectation_dict (bounds : List (PyKey × PyVal)) (actual : PyVal) :
    checkExpectation (.dict bounds) actual = (do
      if ← tooSmall (boundOf bounds "min") actual then return some .belowMin
      if ← tooLarge (boundOf bounds "max") actual then return some .aboveMax
      return none) := by
  have hmin : (PyVal.lookup bounds "min").getD .none = boundOf bounds "min" := rfl
  have hmax : (PyVal.lookup bounds "max").getD .none = boundOf bounds "max" := rfl
  unfold checkExpectation
  dsimp only
  rw [hmin, hmax]
  cases boundOf bounds "min" <;> cases boundOf bounds "max" <;> cases actual <;> rfl

/-- The first condition that the values do not meet. -/
def conditionFailure (conditions values : Mapping) :
    Except PyError (Option (PyStr × ConditionFailure)) :=
  match conditions with
  | [] => .ok none
  | (key, expected) :: rest => do
      match ← checkExpectation expected ((Dict.get? values key).getD .none) with
      | some failure => return some (key, failure)
      | none => conditionFailure rest values

/-- Conditions are met if each of them is. -/
theorem conditionFailure_eq_none_iff {conditions values : Mapping} :
    conditionFailure conditions values = .ok none ↔ ∀ c ∈ conditions,
      checkExpectation c.2 ((Dict.get? values c.1).getD .none) = .ok none := by
  induction conditions with
  | nil => simp [conditionFailure]
  | cons c rest ih =>
    obtain ⟨key, expected⟩ := c
    rw [List.forall_mem_cons, ← ih, conditionFailure, bind_eq_ok_iff]
    constructor
    · rintro ⟨failure?, hcheck, hrest⟩
      cases failure? with
      | none => exact ⟨hcheck, hrest⟩
      | some failure => cases hrest
    · exact fun ⟨hcheck, hrest⟩ => ⟨none, hcheck, hrest⟩

/-- The loop of `DelegationRule.matches`, which stops at the first condition that is not met. -/
def conditionsMet (conditions values : Mapping) : Except PyError Bool :=
  match conditions with
  | [] => .ok true
  | (key, expected) :: rest =>
      let actual := (Dict.get? values key).getD .none
      match expected with
      | .dict bounds => do
          let minimum := boundOf bounds "min"
          let maximum := boundOf bounds "max"
          if ← tooSmall minimum actual then return false
          if ← tooLarge maximum actual then return false
          conditionsMet rest values
      | .list allowed => if PyVal.isIn actual allowed then conditionsMet rest values else .ok false
      | expected => if actual.eq expected then conditionsMet rest values else .ok false

/-- The rest of the conditions counts where the first one is met. -/
theorem conditionsMet_cons (key : PyStr) (expected : PyVal) (rest values : Mapping) :
    conditionsMet ((key, expected) :: rest) values = (do
      match ← checkExpectation expected ((Dict.get? values key).getD .none) with
      | some _ => return false
      | none => conditionsMet rest values) := by
  cases expected with
  | dict bounds =>
    rw [checkExpectation_dict, conditionsMet]
    cases tooSmall (boundOf bounds "min") ((Dict.get? values key).getD .none) with
    | error err => rfl
    | ok small =>
      cases small with
      | true => rfl
      | false =>
        cases tooLarge (boundOf bounds "max") ((Dict.get? values key).getD .none) with
        | error err => rfl
        | ok large => cases large <;> rfl
  | list allowed =>
    rw [conditionsMet, checkExpectation]
    split <;> rfl
  | _ =>
    rw [conditionsMet, checkExpectation]
    · split <;> rfl
    all_goals simp

/-- The two loops accept the same values, and fail on the same. -/
theorem conditionsMet_eq (conditions values : Mapping) :
    conditionsMet conditions values = (conditionFailure conditions values).map Option.isNone := by
  induction conditions with
  | nil => rfl
  | cons c rest ih =>
    obtain ⟨key, expected⟩ := c
    rw [conditionsMet_cons, conditionFailure]
    cases checkExpectation expected ((Dict.get? values key).getD .none) with
    | error err => rfl
    | ok failure? =>
      cases failure? with
      | some failure => rfl
      | none => exact ih

/-! ## Delegation rules -/

/-- A grant of autonomy for matching events. -/
structure DelegationRule where
  ruleName : PyStr
  workflowId : String
  agentId : String
  authorityClass : AuthorityClass
  autonomyLevel : AutonomyLevel
  conditions : Mapping := []
  requiresApprovalIf : List String := []
  sampleRate : PyFloat := .fin 0
  active : Bool := true
  ruleId : String
  createdBy : Option String := none
  createdAt : String
  revokedAt : Option String := none
  revokedReason : Option PyStr := none
  metadata : Mapping := []

namespace DelegationRule

/-- The rule is in force and its scope and conditions admit the event. -/
def matchesEvent (r : DelegationRule) (e : WorkflowEvent) : Except PyError Bool :=
  if !r.active then .ok false
  else if r.workflowId ≠ e.workflowId then .ok false
  else if r.agentId ≠ e.agentId then .ok false
  else if r.authorityClass ≠ e.authorityRequested then .ok false
  else do return (← conditionFailure r.conditions e.metadata).isNone

/-- The conditions of a rule are checked by its own loop. -/
theorem matchesEvent_eq (r : DelegationRule) (e : WorkflowEvent) :
    r.matchesEvent e =
      if !r.active then .ok false
      else if r.workflowId ≠ e.workflowId then .ok false
      else if r.agentId ≠ e.agentId then .ok false
      else if r.authorityClass ≠ e.authorityRequested then .ok false
      else conditionsMet r.conditions e.metadata := by
  rw [conditionsMet_eq]
  rfl

def entries (r : DelegationRule) : List (PyKey × PyVal) := [
  ("rule_name", .str r.ruleName),
  ("workflow_id", .text r.workflowId),
  ("agent_id", .text r.agentId),
  ("authority_class", .text r.authorityClass.value),
  ("autonomy_level", .int r.autonomyLevel.value),
  ("conditions", r.conditions.toVal),
  ("requires_approval_if", textsToVal r.requiresApprovalIf),
  ("sample_rate", .float r.sampleRate),
  ("active", .bool r.active),
  ("rule_id", .text r.ruleId),
  ("created_by", .optText r.createdBy),
  ("created_at", .text r.createdAt),
  ("revoked_at", .optText r.revokedAt),
  ("revoked_reason", .optStr r.revokedReason),
  ("metadata", r.metadata.toVal)]

def toDict (r : DelegationRule) : PyVal := .dict r.entries

/-- A rule matches an event of its scope whose metadata pass its conditions. -/
theorem matchesEvent_eq_true_iff {r : DelegationRule} {e : WorkflowEvent} :
    r.matchesEvent e = .ok true ↔ r.active = true ∧ r.workflowId = e.workflowId ∧
      r.agentId = e.agentId ∧ r.authorityClass = e.authorityRequested ∧
      conditionFailure r.conditions e.metadata = .ok none := by
  have hlast : (do return (← conditionFailure r.conditions e.metadata).isNone :
      Except PyError Bool) = .ok true ↔
      conditionFailure r.conditions e.metadata = .ok none := by
    cases conditionFailure r.conditions e.metadata with
    | error err => simp [bind, Except.bind]
    | ok failure? => cases failure? <;> simp [bind, Except.bind, pure, Except.pure]
  unfold matchesEvent
  rw [hlast.symm]
  split_ifs <;> simp_all

/-- A rule that matches is active and has the scope of the event. -/
theorem scope_of_matchesEvent {r : DelegationRule} {e : WorkflowEvent}
    (h : r.matchesEvent e = .ok true) :
    r.active = true ∧ r.workflowId = e.workflowId ∧ r.agentId = e.agentId ∧
      r.authorityClass = e.authorityRequested := by
  obtain ⟨hactive, hworkflow, hagent, hclass, _⟩ := matchesEvent_eq_true_iff.mp h
  exact ⟨hactive, hworkflow, hagent, hclass⟩

end DelegationRule

/-! ## Capability tokens -/

/-- A short-lived, scoped, signed grant. -/
structure CapabilityToken where
  tokenId : String
  agentId : String
  workflowId : String
  authorityClass : AuthorityClass
  maxConsequenceRank : Int
  conditions : Mapping
  issuedAt : String
  expiresAt : String
  nonce : String
  singleUse : Bool
  issuer : String
  eventId : Option String := none
  signature : Option String := none

namespace CapabilityToken

/-- What the issuer signs: every field but the signature. -/
def signingEntries (t : CapabilityToken) : List (PyKey × PyVal) := [
  ("token_id", .text t.tokenId),
  ("agent_id", .text t.agentId),
  ("workflow_id", .text t.workflowId),
  ("authority_class", .text t.authorityClass.value),
  ("max_consequence_rank", .int t.maxConsequenceRank),
  ("conditions", t.conditions.toVal),
  ("issued_at", .text t.issuedAt),
  ("expires_at", .text t.expiresAt),
  ("nonce", .text t.nonce),
  ("single_use", .bool t.singleUse),
  ("issuer", .text t.issuer),
  ("event_id", .optText t.eventId)]

def signingPayload (t : CapabilityToken) : Except PyError Bytes :=
  canonicalBytes (.dict t.signingEntries)

private theorem nodup_signingKeys (t : CapabilityToken) :
    (t.signingEntries.map fun e => (keyText e.1).toText).Nodup := by
  simp only [signingEntries, List.map_cons, List.map_nil, keyText, PyStr.toText]
  decide

/-- The scope and identity of a token are fixed by its signed bytes. -/
theorem eq_fields_of_signingPayload {t u : CapabilityToken} {b : Bytes}
    (ht : t.signingPayload = .ok b) (hu : u.signingPayload = .ok b) :
    t.tokenId = u.tokenId ∧ t.agentId = u.agentId ∧ t.workflowId = u.workflowId ∧
      t.authorityClass = u.authorityClass ∧ t.expiresAt = u.expiresAt ∧
      t.singleUse = u.singleUse ∧ t.eventId = u.eventId := by
  have hcanon := canon_eq_of_canonicalBytes ht hu
  have field {k : PyKey} {v v' : PyVal} (hv : (k, v) ∈ t.signingEntries)
      (hv' : (k, v') ∈ u.signingEntries) : canon v = canon v' :=
    canon_eq_of_canon_dict_eq hcanon (nodup_signingKeys u) hv hv'
  refine ⟨eq_of_canon_text (field (k := "token_id") ?_ ?_),
    eq_of_canon_text (field (k := "agent_id") ?_ ?_),
    eq_of_canon_text (field (k := "workflow_id") ?_ ?_),
    AuthorityClass.value_injective (eq_of_canon_text (field (k := "authority_class") ?_ ?_)),
    eq_of_canon_text (field (k := "expires_at") ?_ ?_),
    eq_of_canon_bool (field (k := "single_use") ?_ ?_),
    eq_of_canon_optText (field (k := "event_id") ?_ ?_)⟩
  all_goals simp [signingEntries]

def toDict (t : CapabilityToken) : PyVal :=
  .dict (t.signingEntries ++ [((.str "signature" : PyKey), PyVal.optText t.signature)])

end CapabilityToken

/-! ## Audit records -/

/-- One link of the audit chain. -/
structure AuditRecord where
  eventType : String
  payload : PyVal
  actorId : Option String
  recordId : String
  timestamp : String
  sequence : Nat
  previousHash : Option String
  recordHash : Option String
  signature : Option String

def AuditRecord.toDict (r : AuditRecord) : PyVal :=
  .dict [
    ("event_type", .text r.eventType),
    ("payload", r.payload),
    ("actor_id", .optText r.actorId),
    ("record_id", .text r.recordId),
    ("timestamp", .text r.timestamp),
    ("sequence", .int r.sequence),
    ("previous_hash", .optText r.previousHash),
    ("record_hash", .optText r.recordHash),
    ("signature", .optText r.signature)]

end EarnedAutonomy
