import EarnedAutonomy.Core.ControlPlane
import EarnedAutonomy.Storage.Rows

/-!
# The agent's client

`enforcement/sdk.py`: an agent builds and signs its events, and executes an action with the
token of the packet that its proposal was answered with.

* `tokenFromDict_toDict`: the token is read back from the packet as it was issued.
* `conditionFailure_actionContext`: the context of an execution meets the conditions that the
  metadata of the event met, unless a condition is about one of the entries that are added.
-/

namespace EarnedAutonomy

open OrderedDict CapabilityService
open ControlPlane hiding body

/-! ## Packets -/

/-- The packet as `propose_event` returns it. -/
def ControlPlane.Packet.toDict (p : Packet) : List (PyKey × PyVal) := [
  ("event", p.event.toDict),
  ("agent", p.agent.toDict),
  ("current_autonomy_level", .int p.currentLevel.value),
  ("current_autonomy_label", .text p.currentLevel.label),
  ("autonomy_ceiling", .int (autonomyCeilingFor p.event.authorityRequested).value),
  ("policy_decision", p.decision.toDict),
  ("classifier_reasons", .list (p.classifierReasons.map .str)),
  ("matching_delegation_rule", match p.matchingRule with
    | some rule => rule.toDict
    | none => .none),
  ("capability_token", match p.token with
    | some token => token.toDict
    | none => .none),
  ("approval_packet", approvalPacket p.event p.decision p.classifierReasons)]

/-- The ledger gets the packet without its token. -/
theorem ledgerDict_eq (p : Packet) :
    p.ledgerDict = .dict (p.toDict.filter fun e => e.1 ≠ .str "capability_token") := by
  obtain ⟨event, agent, level, decision, reasons, rule?, token⟩ := p
  unfold Packet.ledgerDict Packet.toDict
  cases rule? <;> simp

/-- The fields of `CapabilityToken`. -/
def tokenFields : List PyKey := [
  "token_id", "agent_id", "workflow_id", "authority_class", "max_consequence_rank", "conditions",
  "issued_at", "expires_at", "nonce", "single_use", "issuer", "event_id", "signature"]

/-- `CapabilityToken(**d)`, of values with the types of the fields. -/
def tokenFromEntries (d : List (PyKey × PyVal)) : Option CapabilityToken := do
  return {
    tokenId := ← (← PyVal.lookup d "token_id").asText?
    agentId := ← (← PyVal.lookup d "agent_id").asText?
    workflowId := ← (← PyVal.lookup d "workflow_id").asText?
    authorityClass := ← AuthorityClass.ofValue (← (← PyVal.lookup d "authority_class").asText?)
    maxConsequenceRank := ← (← PyVal.lookup d "max_consequence_rank").asInt?
    conditions := ← (← PyVal.lookup d "conditions").asMapping?
    issuedAt := ← (← PyVal.lookup d "issued_at").asText?
    expiresAt := ← (← PyVal.lookup d "expires_at").asText?
    nonce := ← (← PyVal.lookup d "nonce").asText?
    singleUse := ← (← PyVal.lookup d "single_use").asBool?
    issuer := ← (← PyVal.lookup d "issuer").asText?
    eventId := ← ((PyVal.lookup d "event_id").getD .none).orNone PyVal.asText?
    signature := ← ((PyVal.lookup d "signature").getD .none).orNone PyVal.asText? }

/-- `_token_from_dict`.  A text that names no class raises, as do a field that is missing and
has no default and a key that is no field. -/
def tokenFromDict : PyVal → Option CapabilityToken
  | .dict d => if d.all fun e => e.1 ∈ tokenFields then tokenFromEntries d else none
  | _ => none

theorem tokenFromEntries_signature (t : CapabilityToken) :
    tokenFromEntries (t.signingEntries ++
      [((.str "signature" : PyKey), PyVal.optText t.signature)]) = some t := by
  unfold CapabilityToken.signingEntries tokenFromEntries
  simp [PyVal.lookup]

/-- `_token_from_dict` undoes `to_dict`. -/
theorem tokenFromDict_toDict (t : CapabilityToken) : tokenFromDict t.toDict = some t := by
  have hfields : (t.signingEntries ++ [((.str "signature" : PyKey), PyVal.optText t.signature)]).all
      (fun e => e.1 ∈ tokenFields) = true := by
    simp [CapabilityToken.signingEntries, tokenFields]
  unfold CapabilityToken.toDict tokenFromDict
  dsimp only
  rw [if_pos hfields, tokenFromEntries_signature]

/-! ## The client -/

variable {P : Primitives}

/-- `AgentClient`, without the control plane and the enforcement point that it calls. -/
structure AgentClient (P : Primitives) where
  agentId : String
  humanOwnerId : String
  keypair : KeyPair P

/-- The arguments of `build_event`. -/
structure EventArgs where
  workflowId : String
  workflowStage : PyStr
  intent : PyStr
  authority : AuthorityClass
  proposedNextState : PyStr
  expectedEffect : PyStr
  evidence : Option (List EvidenceItem) := none
  confidence : PyFloat := .fin 0
  requiresExecution : Bool := true
  metadata : Option Mapping := none
  eventType : WorkflowEventType := .proposedAction

namespace AgentClient

variable (c : AgentClient P)

/-- The event of `build_event` before it is signed, with the draws and the time of its
defaults. -/
def unsignedEvent (args : EventArgs) (nonce id : Uuid) (now : Calendar.DateTime) :
    WorkflowEvent where
  agentId := c.agentId
  humanOwnerId := c.humanOwnerId
  workflowId := args.workflowId
  workflowStage := args.workflowStage
  eventType := args.eventType
  intent := args.intent
  authorityRequested := args.authority
  proposedNextState := args.proposedNextState
  expectedEffect := args.expectedEffect
  evidence := args.evidence.getD []
  confidence := args.confidence
  requiresExecution := args.requiresExecution
  nonce := nonce.hex
  signature := none
  eventId := newId "evt" id
  timestamp := Calendar.isoformat now
  metadata := args.metadata.getD []

/-- `build_event` -/
def buildEvent (args : EventArgs) (nonce id : Uuid) (now : Calendar.DateTime) :
    Except PyError WorkflowEvent := do
  let event := c.unsignedEvent args nonce id now
  return { event with signature := some (c.keypair.sign (← event.signingPayload)) }

/-- The context that an action is executed in: the metadata of the event, what is given beside
them, and the rank of the class. -/
def actionContext (event : WorkflowEvent) (extra : Option Mapping) : Mapping :=
  Dict.setdefault (Dict.update event.metadata (extra.getD [])) "consequence_rank"
    (.int (consequenceRank event.authorityRequested))

/-- The token of a packet, or `none` where it cannot be read. -/
def presented (packet : List (PyKey × PyVal)) : Option (Option CapabilityToken) :=
  let tokenDict := (PyVal.lookup packet "capability_token").getD .none
  if tokenDict.truthy then (tokenFromDict tokenDict).map some else some none

/-- `execute`: the call of the enforcement point that it ends in, or `none` where the token of
the packet cannot be read.  The outcome of the action is an argument. -/
def execute (event : WorkflowEvent) (packet : List (PyKey × PyVal))
    (outcome : Except String PyVal) (extra : Option Mapping := none) : Option Command :=
  (presented packet).map fun token => .execute token {
    agentId := c.agentId
    workflowId := event.workflowId
    authorityClass := event.authorityRequested
    context := actionContext event extra } outcome

variable {c}

/-- An event is signed as the client's own. -/
theorem agentId_of_buildEvent {args : EventArgs} {nonce id : Uuid} {now : Calendar.DateTime}
    {e : WorkflowEvent} (h : c.buildEvent args nonce id now = .ok e) : e.agentId = c.agentId := by
  obtain ⟨_, _, hsigned⟩ := bind_eq_ok_iff.mp h
  obtain rfl := Except.ok.inj hsigned
  rfl

variable (c) in
/-- With a token in the packet, that token is presented. -/
theorem execute_toDict (event : WorkflowEvent) {p : Packet} {t : CapabilityToken}
    (ht : p.token = some t) (outcome : Except String PyVal) (extra : Option Mapping) :
    c.execute event p.toDict outcome extra = some (.execute (some t) {
      agentId := c.agentId
      workflowId := event.workflowId
      authorityClass := event.authorityRequested
      context := actionContext event extra } outcome) := by
  have hfound : PyVal.lookup p.toDict "capability_token" = some t.toDict := by
    simp [Packet.toDict, PyVal.lookup, ht]
  have hpresented : presented p.toDict = some (some t) := by
    unfold presented
    rw [hfound]
    show Option.map some (tokenFromDict t.toDict) = _
    rw [tokenFromDict_toDict]
    rfl
  unfold execute
  rw [hpresented]
  rfl

end AgentClient

/-! ## Conditions -/

/-- None of the entries is about a key that a proposal or the client adds to the metadata. -/
def Unreserved (m : Mapping) : Prop :=
  ∀ e ∈ m, e.1 ≠ "consequence_rank" ∧ e.1 ≠ "_approved_workflows"

instance (m : Mapping) : Decidable (Unreserved m) :=
  inferInstanceAs (Decidable (∀ e ∈ m, e.1 ≠ "consequence_rank" ∧ e.1 ≠ "_approved_workflows"))

theorem Unreserved.get?_eq_none {m : Mapping} (h : Unreserved m) :
    Dict.get? m "consequence_rank" = none ∧ Dict.get? m "_approved_workflows" = none := by
  simp only [Dict.get?_eq_none_iff, List.mem_map, not_exists, not_and]
  exact ⟨fun e he => (h e he).1, fun e he => (h e he).2⟩

/-- The conditions see the same values in two mappings that agree on their keys. -/
theorem conditionFailure_of_get? {conditions values values' : Mapping}
    (h : ∀ c ∈ conditions, Dict.get? values c.1 = Dict.get? values' c.1) :
    conditionFailure conditions values = conditionFailure conditions values' := by
  induction conditions with
  | nil => rfl
  | cons c rest ih =>
    obtain ⟨key, expected⟩ := c
    rw [List.forall_mem_cons] at h
    rw [conditionFailure, conditionFailure, h.1, ih h.2]

/-- The event as it was built, or as the proposal has left it. -/
def EventLeft (e : WorkflowEvent) (p : Packet) (e' : WorkflowEvent) : Prop :=
  e' = e ∨ e' = p.event

/-- A proposal adds one entry to the metadata of its event. -/
theorem EventLeft.fields {e e' : WorkflowEvent} {p : Packet} (h : EventLeft e p e')
    (hp : p.event = withApprovedWorkflows e p.agent) : e'.workflowId = e.workflowId ∧
      e'.authorityRequested = e.authorityRequested ∧
      ∀ key : PyStr, key ≠ "_approved_workflows" →
        Dict.get? e'.metadata key = Dict.get? e.metadata key := by
  rcases h with rfl | rfl
  · exact ⟨rfl, rfl, fun _ _ => rfl⟩
  · rw [hp]
    refine ⟨rfl, rfl, fun key hkey => ?_⟩
    show Dict.get? (Dict.setdefault e.metadata _ _) key = _
    rw [Dict.get?_setdefault, if_neg (Ne.symm hkey)]

/-- The context of an execution without extra entries meets the conditions that the metadata
of the event meet. -/
theorem conditionFailure_actionContext {e e' : WorkflowEvent} {p : Packet} {conditions : Mapping}
    (h : EventLeft e p e') (hp : p.event = withApprovedWorkflows e p.agent)
    (hconditions : Unreserved conditions) :
    conditionFailure conditions (AgentClient.actionContext e' none) =
      conditionFailure conditions e.metadata := by
  apply conditionFailure_of_get?
  intro c hc
  obtain ⟨hrank, hworkflows⟩ := hconditions c hc
  show Dict.get? (Dict.setdefault e'.metadata _ _) c.1 = _
  rw [Dict.get?_setdefault, if_neg (Ne.symm hrank)]
  exact (h.fields hp).2.2 c.1 hworkflows

/-- Its rank is that of the class. -/
theorem get?_rank_actionContext {e e' : WorkflowEvent} {p : Packet} (h : EventLeft e p e')
    (hp : p.event = withApprovedWorkflows e p.agent) (hmetadata : Unreserved e.metadata) :
    Dict.get? (AgentClient.actionContext e' none) "consequence_rank" =
      some (.int (consequenceRank e.authorityRequested)) := by
  obtain ⟨_, hclass, hvalues⟩ := h.fields hp
  show Dict.get? (Dict.setdefault e'.metadata _ _) _ = _
  rw [Dict.get?_setdefault, if_pos rfl, hvalues _ (by decide), hmetadata.get?_eq_none.1, hclass]
  rfl

end EarnedAutonomy
