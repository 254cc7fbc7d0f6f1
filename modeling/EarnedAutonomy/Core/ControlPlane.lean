import EarnedAutonomy.Enforcement.Pep

/-!
# The control plane

`core/control_plane.py`.  Each operation is a program over the calls of
`Core.World`, in the order in which the source makes them, and raises where the
source raises.

* `register_agent`, `propose_event`, `submit_decision`,
  `approve_delegation_rule`, `revoke_delegation_rule`, `record_incident` and
  `recommend_for` are the operations.
* `Command` is a call of one of them, of the enforcement point or of the
  capability service, and `system` is a deployment that serves commands on any
  number of replicas.
-/

namespace EarnedAutonomy

open Atomic Calendar OrderedDict

structure ControlPlaneConfig where
  strictMode : Bool := true
  allowedCapabilityTtlSeconds : Int := 300
  sampledCapabilityTtlSeconds : Int := 300

/-- `Classifier`: consequences, risk and reasons of an event. -/
abbrev Classifier :=
  WorkflowEvent → Except PyError (List ConsequenceClass × RiskLevel × List PyStr)

/-- `EarnedAutonomyControlPlane`, computing its statistics in `F`. -/
structure ControlPlane (P : Primitives) (F : Type) where
  config : ControlPlaneConfig := {}
  classify : Classifier
  policyEngine : PolicyEngine := {}
  capabilityService : CapabilityService P
  ledgerKeys : KeyPair P

/-- `bool(text)` of an optional text. -/
def present : Option String → Bool
  | some s => s ≠ ""
  | none => false

namespace ControlPlane

variable {P : Primitives} {F : Type} (cp : ControlPlane P F)

/-! ## Registration -/

/-- `register_agent` -/
def registerAgent (agent : AgentIdentity) : CpProg AgentIdentity := do
  if cp.config.strictMode && !present agent.publicKeyHex then
    .raise (.authenticationError "strict_mode requires a public_key_hex for agent registration")
  else
    call (.addAgent agent)
    let _ ← ledgerAppend "agent.registered" agent.toDict (some agent.ownerId)
    return agent

/-! ## Proposals -/

/-- The record of an unknown agent outside strict mode. -/
def autoRegistered (event : WorkflowEvent) (createdAt : String) : AgentIdentity where
  agentId := event.agentId
  name := event.agentId
  ownerId := event.humanOwnerId
  purpose := "Auto-created (non-strict mode)"
  publicKeyHex := none
  approvedWorkflows := [event.workflowId]
  currentAutonomy := []
  knownLimitations := []
  incidentCount := 0
  active := true
  createdAt := createdAt

/-- The agent of a proposal. -/
def proposer (event : WorkflowEvent) : CpProg AgentIdentity := do
  match ← call (.getAgent event.agentId) with
  | some agent => return agent
  | none =>
      if cp.config.strictMode then
        .raise (.authenticationError ("unknown agent_id: " ++ event.agentId))
      else
        let now ← call (.cap .utcNow)
        let agent := autoRegistered event (isoformat now)
        call (.addAgent agent)
        return agent

/-- The event is signed under the key registered for the agent. -/
def signedBy (agent : AgentIdentity) (event : WorkflowEvent) : Except PyError Bool :=
  match agent.publicKeyHex, event.signature with
  | some key, some signature =>
      if key = "" then .ok false
      else do return P.verify key (← event.signingPayload) signature
  | _, _ => .ok false

/-- Who proposes is known, active and, in strict mode, holds the key. -/
def authenticate (event : WorkflowEvent) : CpProg AgentIdentity := do
  let agent ← cp.proposer event
  if !agent.active then
    .raise (.authenticationError ("agent " ++ event.agentId ++ " is deactivated"))
  else if cp.config.strictMode then
    if !present event.signature then
      .raise (.authenticationError "strict_mode requires a signed event")
    else if ← Prog.ofExcept (signedBy (P := P) agent event) then return agent
    else .raise (.authenticationError "event signature verification failed")
  else return agent

/-- The event with the agent's workflows where the guards look for them. -/
def withApprovedWorkflows (event : WorkflowEvent) (agent : AgentIdentity) : WorkflowEvent :=
  { event with metadata :=
      Dict.setdefault event.metadata "_approved_workflows" (textsToVal agent.approvedWorkflows) }

/-- What a proposal is answered with. -/
structure Packet where
  event : WorkflowEvent
  agent : AgentIdentity
  currentLevel : AutonomyLevel
  decision : PolicyDecision
  classifierReasons : List PyStr
  matchingRule : Option DelegationRule
  token : Option CapabilityToken

/-- `_approval_packet` -/
def approvalPacket (event : WorkflowEvent) (decision : PolicyDecision)
    (classifierReasons : List PyStr) : PyVal :=
  .dict [
    ("plain_english_summary", .str event.intent),
    ("requested_authority", .text event.authorityRequested.value),
    ("workflow", .text event.workflowId),
    ("stage", .str event.workflowStage),
    ("proposed_transition", .str event.proposedNextState),
    ("expected_effect", .str event.expectedEffect),
    ("evidence", .list (event.evidence.map EvidenceItem.toDict)),
    ("risk_level", .text decision.riskLevel.value),
    ("consequence_classes", textsToVal (decision.consequenceClasses.map ConsequenceClass.value)),
    ("recommended_status", .text decision.status.value),
    ("autonomy_ceiling", match decision.autonomyCeiling with
      | some n => .int n
      | none => .none),
    ("triggered_guards", textsToVal decision.triggeredGuards),
    ("policy_reason", .str decision.reason),
    ("classifier_reasons", .list (classifierReasons.map .str)),
    ("human_options", textsToVal ([.approved, .rejected, .modifiedAndApproved,
      .moreEvidenceRequested, .escalated, .convertedToDelegationRule].map
        ApprovalOutcome.value))]

/-- The packet without its token, as the ledger keeps it. -/
def Packet.ledgerDict (p : Packet) : PyVal :=
  .dict [
    ("event", p.event.toDict),
    ("agent", p.agent.toDict),
    ("current_autonomy_level", .int p.currentLevel.value),
    ("current_autonomy_label", .text p.currentLevel.label),
    ("autonomy_ceiling", .int (autonomyCeilingFor p.event.authorityRequested).value),
    ("policy_decision", p.decision.toDict),
    ("classifier_reasons", .list (p.classifierReasons.map .str)),
    ("matching_delegation_rule", match p.matchingRule with
      | some rule => rule.toDict
      | none => .none),
    ("approval_packet", approvalPacket p.event p.decision p.classifierReasons)]

/-- The lifetime of a token for a decision. -/
def ttlFor (status : AutonomyStatus) : Int :=
  if status = .allowed then cp.config.allowedCapabilityTtlSeconds
  else cp.config.sampledCapabilityTtlSeconds

/-- The token a decision leads to. -/
def grantFor (event : WorkflowEvent) (rule? : Option DelegationRule) (status : AutonomyStatus) :
    MintArgs where
  agentId := event.agentId
  workflowId := event.workflowId
  authorityClass := event.authorityRequested
  conditions := match rule? with
    | some rule => rule.conditions
    | none => []
  ttlSeconds := cp.ttlFor status
  singleUse := true
  eventId := some event.eventId

/-- Mint a token where the action may proceed. -/
def mintFor (event : WorkflowEvent) (rule? : Option DelegationRule) (status : AutonomyStatus) :
    CpProg (Option CapabilityToken) := do
  if status.permissive then
    return some (← liftCap (cp.capabilityService.mint (cp.grantFor event rule? status)))
  else return none

/-- The part of `propose_event` between authentication and minting: claim the
nonce, store the event and ask the policy. -/
def assess (event : WorkflowEvent) (agent : AgentIdentity) : CpProg Packet := do
  if !(← call (.claimNonce event.agentId event.nonce)) then
    .raise (.authenticationError "replayed event nonce")
  else
    call (.addEvent event)
    let (consequences, risk, reasons) ← Prog.ofExcept (cp.classify event)
    let current ← Prog.ofExcept (agent.autonomyFor event.workflowId event.authorityRequested)
    let rule? ← Prog.ofExcept (← call (.matchingRule event))
    let event := withApprovedWorkflows event agent
    call (.touchEvent event)
    let decision ← Prog.ofExcept (cp.policyEngine.evaluate event current consequences risk rule?)
    return ⟨event, agent, current, decision, reasons, rule?, none⟩

/-- The rest of `propose_event`: mint a token for the answer and record both. -/
def conclude (packet : Packet) : CpProg Packet := do
  let token ← cp.mintFor packet.event packet.matchingRule packet.decision.status
  call (.recordDecision packet.decision.status.value)
  let _ ← ledgerAppend "workflow.event.proposed" packet.ledgerDict (some packet.event.agentId)
  return { packet with token := token }

/-- `propose_event` -/
def proposeEvent (event : WorkflowEvent) : CpProg Packet := do
  cp.conclude (← cp.assess event (← cp.authenticate event))

/-! ## Recommendations -/

section

variable [Arithmetic F]

/-- The recommendation with the rule it proposes and its ids and times. -/
def finalize (stats : TrustStats) (advice : Advice F) : CpProg (AutonomyRecommendation F) := do
  let rule? ← if advice.currentLevel.value < advice.recommendedLevel.value then do
      let ruleId ← call (.cap .uuid4)
      let createdAt ← call (.cap .utcNow)
      pure (some (suggestedRule stats advice.recommendedLevel (newId "rule" ruleId)
        (isoformat createdAt)))
    else pure none
  let id ← call (.cap .uuid4)
  let createdAt ← call (.cap .utcNow)
  return {
    agentId := stats.agentId
    workflowId := stats.workflowId
    authorityClass := stats.authorityClass
    advice := advice
    proposedRule := rule?
    requiresSecondApprover := rule?.isSome && requiresSeparationOfDuties stats.authorityClass
    recommendationId := newId "rec" id
    createdAt := isoformat createdAt }

variable (F) in
/-- `recommend_for` -/
def recommendFor (agentId workflowId : String) (authorityClass : AuthorityClass) :
    CpProg (AutonomyRecommendation F) := do
  match ← call (.getAgent agentId) with
  | none => .raise (.controlPlaneError ("Unknown agent_id: " ++ agentId))
  | some agent =>
      let stats ← call (.getStats agentId workflowId authorityClass)
      let current ← Prog.ofExcept (agent.autonomyFor stats.workflowId stats.authorityClass)
      let recommendation ← finalize stats (recommend (F := F) current stats)
      call .countRecommendation
      let _ ← ledgerAppend "autonomy.recommendation" recommendation.toDict (some "system")
      return recommendation

/-! ## Decisions -/

/-- The outcomes that approve. -/
def approves : ApprovalOutcome → Bool
  | .approved => true
  | .modifiedAndApproved => true
  | .convertedToDelegationRule => true
  | _ => false

/-- The owner of an agent may not approve what needs a second person. -/
def checkApprover (event : WorkflowEvent) (decision : ApprovalDecision) : CpProg Unit :=
  if requiresSeparationOfDuties event.authorityRequested then do
    match ← call (.getAgent event.agentId) with
    | some agent =>
        if decision.approverId = agent.ownerId && approves decision.outcome then
          .raise (.separationOfDutiesError (event.authorityRequested.value ++
            " requires an approver other than the agent owner"))
        else return
    | none => return
  else return

/-- Only a replay is reported under another name. -/
def asControlPlaneError : PyError → PyError
  | .replayError message => .controlPlaneError message
  | e => e

/-- What a decision is answered with. -/
structure DecisionResult (F : Type) where
  decision : ApprovalDecision
  stats : TrustStats
  recommendation : AutonomyRecommendation F

def DecisionResult.toDict (r : DecisionResult F) : PyVal :=
  .dict [
    ("decision", r.decision.toDict),
    ("trust_stats", r.stats.toDict F),
    ("recommendation", r.recommendation.toDict)]

variable (F) in
/-- `submit_decision` -/
def submitDecision (decision : ApprovalDecision) : CpProg (DecisionResult F) := do
  match ← call (.getEvent decision.eventId) with
  | none => .raise (.controlPlaneError ("Unknown event_id: " ++ decision.eventId))
  | some event =>
      checkApprover event decision
      let counted ← call
        (.applyDecision event.agentId event.workflowId event.authorityRequested decision)
      let stats ← Prog.ofExcept (counted.mapError asControlPlaneError)
      let _ ← ledgerAppend "approval.decision" decision.toDict (some decision.approverId)
      let recommendation ←
        recommendFor F event.agentId event.workflowId event.authorityRequested
      let result : DecisionResult F := ⟨decision, stats, recommendation⟩
      let _ ← ledgerAppend "trust.updated" result.toDict (some decision.approverId)
      return result

end

/-! ## Delegation rules -/

/-- `approve_delegation_rule` -/
def approveDelegationRule (rule : DelegationRule) (approverId : String)
    (approverRole : Option PyStr) : CpProg DelegationRule := do
  let agent? ← call (.getAgent rule.agentId)
  let ceiling := autonomyCeilingFor rule.authorityClass
  if ceiling.value < rule.autonomyLevel.value then
    .raise (.controlPlaneError ("rule autonomy " ++ rule.autonomyLevel.label ++
      " exceeds ceiling " ++ ceiling.label ++ " for " ++ rule.authorityClass.value))
  else if requiresSeparationOfDuties rule.authorityClass &&
      agent?.any (fun agent => approverId = agent.ownerId) then
    .raise (.separationOfDutiesError (rule.authorityClass.value ++
      " delegation requires an approver other than the agent owner"))
  else
    let rule := { rule with createdBy := some approverId }
    call (.addRule rule)
    let payload := PyVal.dict (rule.entries ++
      [((.str "approved_by" : PyKey), PyVal.text approverId),
        (.str "approver_role", PyVal.optStr approverRole)])
    let _ ← ledgerAppend "delegation_rule.approved" payload (some approverId)
    return rule

/-- The rule, no longer in force. -/
def deactivated (rule : DelegationRule) (reason : PyStr) : DelegationRule :=
  { rule with active := false, revokedReason := some reason }

/-- `revoke_delegation_rule` -/
def revokeDelegationRule (ruleId actorId : String) (reason : PyStr) : CpProg Bool := do
  match ← call (.getRule ruleId) with
  | none => return false
  | some rule =>
      let rule := deactivated rule reason
      call (.addRule rule)
      let revoked ← liftCap (CapabilityService.revokeScope rule.agentId rule.workflowId
        rule.authorityClass)
      let payload := PyVal.dict [
        ("rule_id", .text ruleId),
        ("reason", .str reason),
        ("rule", rule.toDict),
        ("revoked_capability_tokens", .int revoked)]
      let _ ← ledgerAppend "delegation_rule.revoked" payload (some actorId)
      return true

/-! ## Incidents -/

/-- Take the active rules out of force, and answer with their ids. -/
def deactivateRules (reason : PyStr) : List DelegationRule → CpProg (List String)
  | [] => return []
  | rule :: rest =>
      if rule.active then do
        call (.addRule (deactivated rule (PyStr.utf8 "auto-revoked by incident: " ++ reason)))
        return rule.ruleId :: (← deactivateRules reason rest)
      else deactivateRules reason rest

/-- One more incident of the agent. -/
def withIncident (agent : AgentIdentity) : AgentIdentity :=
  { agent with incidentCount := agent.incidentCount + 1 }

/-- Lower the standing level of a registered agent and close its rules. -/
def downgrade (agentId workflowId : String) (authorityClass : AuthorityClass) (reason : PyStr) :
    CpProg (List String) := do
  match ← call (.getAgent agentId) with
  | none => return []
  | some agent =>
      let agent := withIncident agent
      call (.touchAgent agent)
      let current ← Prog.ofExcept (agent.autonomyFor workflowId authorityClass)
      call (.addAgent (agent.setAutonomy workflowId authorityClass
        (current.cappedAt .executeWithApproval)))
      let rules ← call (.rulesFor agentId workflowId authorityClass.value)
      deactivateRules reason rules

/-- What an incident is answered with. -/
structure IncidentReport where
  agentId : String
  workflowId : String
  authorityClass : AuthorityClass
  reason : PyStr
  deactivatedRules : List String
  revokedCapabilityTokens : Nat
  stats : TrustStats

variable (F) in
def IncidentReport.toDict [Arithmetic F] (r : IncidentReport) : PyVal :=
  .dict [
    ("agent_id", .text r.agentId),
    ("workflow_id", .text r.workflowId),
    ("authority_class", .text r.authorityClass.value),
    ("reason", .str r.reason),
    ("deactivated_rules", textsToVal r.deactivatedRules),
    ("revoked_capability_tokens", .int r.revokedCapabilityTokens),
    ("trust_stats", r.stats.toDict F)]

variable (F) in
/-- `record_incident` -/
def recordIncident [Arithmetic F] (agentId workflowId : String)
    (authorityClass : AuthorityClass) (reason : PyStr) (actorId : String) :
    CpProg IncidentReport := do
  let stats ← call (.noteIncident agentId workflowId authorityClass)
  call .countIncident
  let rules ← downgrade agentId workflowId authorityClass reason
  let revoked ← liftCap (CapabilityService.revokeScope agentId workflowId authorityClass)
  let report : IncidentReport :=
    ⟨agentId, workflowId, authorityClass, reason, rules, revoked, stats⟩
  let _ ← ledgerAppend "incident.recorded" (report.toDict F) (some actorId)
  return report

end ControlPlane

/-! ## Deployments -/

/-- A call of a control plane, of its enforcement point or of its capability
service.  `purgeExpired` uses the current time. -/
inductive Command where
  | registerAgent (agent : AgentIdentity)
  | proposeEvent (event : WorkflowEvent)
  | submitDecision (decision : ApprovalDecision)
  | approveDelegationRule (rule : DelegationRule) (approverId : String)
      (approverRole : Option PyStr)
  | revokeDelegationRule (ruleId actorId : String) (reason : PyStr)
  | recordIncident (agentId workflowId : String) (authorityClass : AuthorityClass)
      (reason : PyStr) (actorId : String)
  | recommendFor (agentId workflowId : String) (authorityClass : AuthorityClass)
  | execute (token : Option CapabilityToken) (action : CapabilityService.Action)
      (outcome : Except String PyVal)
  | verifyForAction (token : CapabilityToken) (action : CapabilityService.Action)
  | revokeToken (tokenId : String)
  | purgeExpired

inductive Answer (F : Type) where
  | registered (agent : AgentIdentity)
  | packet (p : ControlPlane.Packet)
  | decided (r : ControlPlane.DecisionResult F)
  | rule (r : DelegationRule)
  | revoked (found : Bool)
  | incident (r : ControlPlane.IncidentReport)
  | recommendation (r : AutonomyRecommendation F)
  | execution (r : ExecutionResult)
  | verified (r : CapabilityService.VerificationResult)
  | tokenRevoked
  | purged (n : Nat)

section

variable {P : Primitives} {F : Type} [Arithmetic F] (cp : ControlPlane P F)

/-- The program of a command. -/
def ControlPlane.body : Command → CpProg (Answer F)
  | .registerAgent agent => do return .registered (← cp.registerAgent agent)
  | .proposeEvent event => do return .packet (← cp.proposeEvent event)
  | .submitDecision decision => do return .decided (← submitDecision F decision)
  | .approveDelegationRule rule approverId approverRole => do
      return .rule (← approveDelegationRule rule approverId approverRole)
  | .revokeDelegationRule ruleId actorId reason => do
      return .revoked (← revokeDelegationRule ruleId actorId reason)
  | .recordIncident a w c reason actorId => do
      return .incident (← recordIncident F a w c reason actorId)
  | .recommendFor a w c => do return .recommendation (← recommendFor F a w c)
  | .execute token action outcome => do
      return .execution (← cp.capabilityService.execute token action outcome)
  | .verifyForAction token action => do
      return .verified (← liftCap (cp.capabilityService.verifyForAction token action))
  | .revokeToken tokenId => do
      liftCap (CapabilityService.revoke tokenId)
      return .tokenRevoked
  | .purgeExpired => do return .purged (← liftCap (CapabilityService.purgeExpired none))

/-- Replicas of one control plane on shared state.  A command comes with the replica
it is made on. -/
def ControlPlane.system {S C L : Type} [Store S] [CapabilityStateStore C] [AuditLog L]
    (o : Oracle) : Service PyError (Nat × Command) Res (Answer F) (World S C L) where
  body r := cp.body r.2
  handler r := worldHandler o cp.ledgerKeys r.1

end

/-! ### A control plane to run

One issuer key, the default engine, and the classifier's answer to an event whose
text and metadata raise no risk. -/

def demoClassify : Classifier := fun e =>
  .ok (consequencesFor e.authorityRequested, baseRiskFor e.authorityRequested,
    [.utf8 ("Base risk from authority class: " ++ e.authorityRequested.value)])

def demoPlane : ControlPlane Primitives.named Dyadic where
  classify := demoClassify
  capabilityService := { keys := .ofPrivate _ "issuer" }
  ledgerKeys := .ofPrivate _ "issuer"

/-- The control plane with all of its state in one database. -/
abbrev SqlWorld := World SqlStore SqlCapabilityStore SqlAuditLedger

abbrev demoSystem : Service PyError (Nat × Command) Res (Answer Dyadic) SqlWorld :=
  demoPlane.system (demoOracle fun _ => demoHour 12)

/-- An agent at the bottom of the ladder. -/
def demoAgent : AgentIdentity where
  agentId := "agent"
  name := "agent"
  ownerId := "owner"
  purpose := "tests"
  publicKeyHex := some "key"
  approvedWorkflows := ["claims"]
  currentAutonomy := []
  knownLimitations := []
  incidentCount := 0
  active := true
  createdAt := "2026-01-01T00:00:00+00:00"

/-- A rule for the agent. -/
def demoRule (authorityClass : AuthorityClass) (level : AutonomyLevel) : DelegationRule where
  ruleName := "rule"
  workflowId := "claims"
  agentId := "agent"
  authorityClass := authorityClass
  autonomyLevel := level
  ruleId := "rule_1"
  createdAt := "2026-01-01T00:00:00+00:00"

end EarnedAutonomy
