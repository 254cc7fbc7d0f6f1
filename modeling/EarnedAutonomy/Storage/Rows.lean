import EarnedAutonomy.Python.JsonStorage
import EarnedAutonomy.Storage.Store

/-!
# Objects as data

`_agent_from_data`, `_event_from_data` and `_rule_from_data` make an object of what
`to_dict` wrote, possibly after a JSON column.

* `jsonColumn_toDict` and `jsonColumn_signingDict`: an event after its column
  has the data of `columnEvent`.  Agents and rules likewise.
* `agentFromData_toDict`, `eventFromData_toDict`, `ruleFromData_toDict`: data is read
  back as the object it was written from.
-/

namespace EarnedAutonomy

open OrderedDict

/-! ## Reading values -/

/-- `WorkflowEventType(text)` -/
def WorkflowEventType.ofValue (text : String) : Option WorkflowEventType :=
  [startedWorkflow, observed, reasoned, proposedAction, requestedAuthority, executedAction,
    effectAttested, completedWorkflow, exception, feedbackReceived].find? fun t => t.value = text

/-- `AuthorityClass(text)` -/
def AuthorityClass.ofValue (text : String) : Option AuthorityClass :=
  [observe, search, summarize, classify, score, recommend, draft, modifyInternalRecord,
    modifyExternalRecord, communicateInternally, communicateExternally, schedule,
    commitCommercialPosition, offerPricingOrDiscount, changeLegalPosition, spendMoney,
    transferValue, grantAccess, revokeAccess, deleteData, modifyProductionSystem,
    bindOrganization, escalateToHuman].find? fun c => c.value = text

@[simp] theorem WorkflowEventType.ofValue_value (t : WorkflowEventType) :
    ofValue t.value = some t := by
  cases t <;> rfl

@[simp] theorem AuthorityClass.ofValue_value (c : AuthorityClass) : ofValue c.value = some c := by
  cases c <;> rfl

namespace PyVal

def asText? : PyVal → Option String
  | .str (.utf8 s) => some s
  | _ => Option.none

def asStr? : PyVal → Option PyStr
  | .str s => some s
  | _ => Option.none

def asBool? : PyVal → Option Bool
  | .bool b => some b
  | _ => Option.none

def asFloat? : PyVal → Option PyFloat
  | .float f => some f
  | _ => Option.none

def asInt? : PyVal → Option Int
  | .int n => some n
  | _ => Option.none

/-- A list, whose items are read one by one. -/
def asList? {α : Type} (read : PyVal → Option α) : PyVal → Option (List α)
  | .list xs => xs.mapM read
  | _ => Option.none

/-- An entry of `current_autonomy`. -/
def asLevel? : PyKey × PyVal → Option (String × Int)
  | (.str (.utf8 k), .int n) => some (k, n)
  | _ => Option.none

def asLevels? : PyVal → Option (Dict String Int)
  | .dict d => d.mapM asLevel?
  | _ => Option.none

/-- `None`, or what the value is read as. -/
def orNone {α : Type} (read : PyVal → Option α) : PyVal → Option (Option α)
  | .none => some Option.none
  | v => (read v).map some

/-- The entries of a mapping, whose keys are texts. -/
def asEntries? : List (PyKey × PyVal) → Option Mapping
  | [] => some []
  | (.str k, v) :: rest => (asEntries? rest).map ((k, v) :: ·)
  | _ => Option.none

def asMapping? : PyVal → Option Mapping
  | .dict d => asEntries? d
  | _ => Option.none

@[simp] theorem same_strs (s t : PyStr) : (PyKey.str s).same (.str t) = decide (s = t) := by
  simp [PyKey.same, PyKey.number?]

@[simp] theorem asText?_text (s : String) : (PyVal.text s).asText? = some s := rfl

@[simp] theorem asStr?_str (s : PyStr) : (PyVal.str s).asStr? = some s := rfl

@[simp] theorem asBool?_bool (b : Bool) : (PyVal.bool b).asBool? = some b := rfl

@[simp] theorem asFloat?_float (f : PyFloat) : (PyVal.float f).asFloat? = some f := rfl

@[simp] theorem asInt?_int (n : Int) : (PyVal.int n).asInt? = some n := rfl

/-- Items are read back one by one. -/
theorem mapM_map_eq_some {α β : Type} {write : α → β} {read : β → Option α}
    (h : ∀ x, read (write x) = some x) (xs : List α) : (xs.map write).mapM read = some xs := by
  induction xs with
  | nil => rfl
  | cons x xs ih =>
    rw [List.map_cons, List.mapM_cons, h, ih]
    rfl

@[simp] theorem asList?_texts (ts : List String) :
    asList? asText? (textsToVal ts) = some ts := mapM_map_eq_some asText?_text ts

@[simp] theorem asList?_strs (ts : List PyStr) :
    asList? asStr? (.list (ts.map .str)) = some ts := mapM_map_eq_some asStr?_str ts

@[simp] theorem asLevels?_levels (d : Dict String Int) :
    asLevels? (.dict (d.map fun e => (.str e.1, .int e.2))) = some d := by
  have hread (e : String × Int) : asLevel? (.str e.1, .int e.2) = some e := rfl
  exact mapM_map_eq_some hread d

@[simp] theorem orNone_none {α : Type} (read : PyVal → Option α) :
    orNone read .none = some Option.none := rfl

@[simp] theorem orNone_float (f : PyFloat) :
    orNone asFloat? (.float f) = some (some f) := rfl

@[simp] theorem orNone_optText (s : Option String) : orNone asText? (.optText s) = some s := by
  cases s <;> rfl

@[simp] theorem orNone_optStr (s : Option PyStr) : orNone asStr? (.optStr s) = some s := by
  cases s <;> rfl

@[simp] theorem asMapping?_toVal (m : Mapping) : m.toVal.asMapping? = some m := by
  unfold Mapping.toVal asMapping?
  induction m with
  | nil => rfl
  | cons e rest ih =>
    simp only [List.map_cons, asEntries?, ih]
    rfl

end PyVal

/-- `EvidenceItem(**data)` -/
def evidenceFromData : PyVal → Option EvidenceItem
  | .dict d => do
      return {
        source := ← (← PyVal.lookup d "source").asStr?
        claim := ← (← PyVal.lookup d "claim").asStr?
        url := ← (← PyVal.lookup d "url").orNone PyVal.asStr?
        confidence := ← (← PyVal.lookup d "confidence").orNone PyVal.asFloat?
        metadata := ← (← PyVal.lookup d "metadata").asMapping? }
  | _ => none

def evidenceItems : List PyVal → Option (List EvidenceItem)
  | [] => some []
  | v :: rest => do return (← evidenceFromData v) :: (← evidenceItems rest)

def asEvidence? : PyVal → Option (List EvidenceItem)
  | .list xs => evidenceItems xs
  | _ => none

/-- `_event_from_data`, of data with the types of the fields. -/
def eventFromData : PyVal → Option WorkflowEvent
  | .dict d => do
      return {
        agentId := ← (← PyVal.lookup d "agent_id").asText?
        humanOwnerId := ← (← PyVal.lookup d "human_owner_id").asText?
        workflowId := ← (← PyVal.lookup d "workflow_id").asText?
        workflowStage := ← (← PyVal.lookup d "workflow_stage").asStr?
        eventType := ← WorkflowEventType.ofValue (← (← PyVal.lookup d "event_type").asText?)
        intent := ← (← PyVal.lookup d "intent").asStr?
        authorityRequested :=
          ← AuthorityClass.ofValue (← (← PyVal.lookup d "authority_requested").asText?)
        proposedNextState := ← (← PyVal.lookup d "proposed_next_state").asStr?
        expectedEffect := ← (← PyVal.lookup d "expected_effect").asStr?
        evidence := ← asEvidence? (← PyVal.lookup d "evidence")
        confidence := ← (← PyVal.lookup d "confidence").asFloat?
        requiresExecution := ← (← PyVal.lookup d "requires_execution").asBool?
        nonce := ← (← PyVal.lookup d "nonce").asText?
        signature := ← (← PyVal.lookup d "signature").orNone PyVal.asText?
        eventId := ← (← PyVal.lookup d "event_id").asText?
        timestamp := ← (← PyVal.lookup d "timestamp").asText?
        metadata := ← (← PyVal.lookup d "metadata").asMapping? }
  | _ => none

/-- `_agent_from_data`, of data with the types of the fields. -/
def agentFromData : PyVal → Option AgentIdentity
  | .dict d => do
      return {
        agentId := ← (← PyVal.lookup d "agent_id").asText?
        name := ← (← PyVal.lookup d "name").asStr?
        ownerId := ← (← PyVal.lookup d "owner_id").asText?
        purpose := ← (← PyVal.lookup d "purpose").asStr?
        publicKeyHex := ← (← PyVal.lookup d "public_key_hex").orNone PyVal.asText?
        approvedWorkflows := ← (← PyVal.lookup d "approved_workflows").asList? PyVal.asText?
        currentAutonomy := ← (← PyVal.lookup d "current_autonomy").asLevels?
        knownLimitations := ← (← PyVal.lookup d "known_limitations").asList? PyVal.asStr?
        incidentCount := ← (← PyVal.lookup d "incident_count").asInt?
        active := ← (← PyVal.lookup d "active").asBool?
        createdAt := ← (← PyVal.lookup d "created_at").asText? }
  | _ => none

/-- `_rule_from_data`, of data with the types of the fields. -/
def ruleFromData : PyVal → Option DelegationRule
  | .dict d => do
      return {
        ruleName := ← (← PyVal.lookup d "rule_name").asStr?
        workflowId := ← (← PyVal.lookup d "workflow_id").asText?
        agentId := ← (← PyVal.lookup d "agent_id").asText?
        authorityClass := ← AuthorityClass.ofValue (← (← PyVal.lookup d "authority_class").asText?)
        autonomyLevel :=
          ← (AutonomyLevel.ofValue (← (← PyVal.lookup d "autonomy_level").asInt?)).toOption
        conditions := ← (← PyVal.lookup d "conditions").asMapping?
        requiresApprovalIf := ← (← PyVal.lookup d "requires_approval_if").asList? PyVal.asText?
        sampleRate := ← (← PyVal.lookup d "sample_rate").asFloat?
        active := ← (← PyVal.lookup d "active").asBool?
        ruleId := ← (← PyVal.lookup d "rule_id").asText?
        createdBy := ← (← PyVal.lookup d "created_by").orNone PyVal.asText?
        createdAt := ← (← PyVal.lookup d "created_at").asText?
        revokedAt := ← (← PyVal.lookup d "revoked_at").orNone PyVal.asText?
        revokedReason := ← (← PyVal.lookup d "revoked_reason").orNone PyVal.asStr?
        metadata := ← (← PyVal.lookup d "metadata").asMapping? }
  | _ => none

/-! ## Round trips -/

theorem evidenceFromData_toDict (x : EvidenceItem) : evidenceFromData x.toDict = some x := by
  obtain ⟨source, claim, url, confidence, metadata⟩ := x
  unfold EvidenceItem.toDict evidenceFromData
  cases confidence <;> simp [PyVal.lookup]

theorem evidenceItems_toDict (xs : List EvidenceItem) :
    evidenceItems (xs.map EvidenceItem.toDict) = some xs := by
  induction xs with
  | nil => rfl
  | cons x rest ih =>
    rw [List.map_cons, evidenceItems, evidenceFromData_toDict, ih]
    rfl

@[simp] theorem asEvidence?_toDict (xs : List EvidenceItem) :
    asEvidence? (.list (xs.map EvidenceItem.toDict)) = some xs := evidenceItems_toDict xs

/-- What `to_dict` has written is read back. -/
theorem eventFromData_toDict (e : WorkflowEvent) : eventFromData e.toDict = some e := by
  unfold WorkflowEvent.toDict eventFromData
  simp [PyVal.lookup]

theorem agentFromData_toDict (a : AgentIdentity) : agentFromData a.toDict = some a := by
  unfold AgentIdentity.toDict agentFromData
  simp [PyVal.lookup]

theorem ruleFromData_toDict (r : DelegationRule) : ruleFromData r.toDict = some r := by
  unfold DelegationRule.toDict DelegationRule.entries ruleFromData
  simp [PyVal.lookup, Except.toOption]

/-! ## After a column -/

/-- A JSON column keeps the entries of a `dict` with distinct text keys. -/
theorem jsonColumn_textKeys {d : List (PyKey × PyVal)} (keys : List String)
    (hkeys : d.map Prod.fst = keys.map fun k => PyKey.str (.utf8 k)) (hnodup : keys.Nodup) :
    jsonColumn (.dict d) = .dict (d.map fun e => (e.1, jsonColumn e.2)) := by
  have hsortable : SortableKeys (d.map Prod.fst) := by
    rw [hkeys]
    exact sortableKeys_texts hnodup
  rw [jsonColumn, hsortable.columnEntries_eq]
  refine congrArg PyVal.dict (List.map_congr_left fun e he => ?_)
  have hmem : e.1 ∈ keys.map fun k => PyKey.str (.utf8 k) := hkeys ▸ List.mem_map_of_mem he
  obtain ⟨k, _, hk⟩ := List.mem_map.mp hmem
  rw [← hk]
  rfl

/-- The keys of a mapping after a column. -/
theorem columnEntries_texts (m acc : Mapping) :
    columnEntries (m.map fun e => (.str e.1, e.2)) (acc.map fun e => (.str e.1, e.2)) =
      (m.foldl (fun acc e => Dict.set acc (columnText e.1) (jsonColumn e.2)) acc).map
        fun e => (PyKey.str e.1, e.2) := by
  have hset (acc : Mapping) (k : PyStr) (v : PyVal) :
      Dict.set (acc.map fun e => (PyKey.str e.1, e.2)) (.str k) v =
        (Dict.set acc k v).map fun e => (PyKey.str e.1, e.2) := by
    induction acc with
    | nil => rfl
    | cons e rest ih =>
      simp only [List.map_cons, Dict.set, PyKey.str.injEq]
      split
      · rfl
      · rw [List.map_cons, ih]
  induction m generalizing acc with
  | nil => rfl
  | cons e rest ih =>
    rw [List.map_cons, columnEntries, List.foldl_cons, ← ih, ← hset]
    rfl

theorem jsonColumn_toVal (m : Mapping) : jsonColumn m.toVal = (columnMapping m).toVal :=
  congrArg PyVal.dict (columnEntries_texts m [])

theorem jsonColumn_evidence (x : EvidenceItem) :
    jsonColumn x.toDict = (columnEvidence x).toDict := by
  obtain ⟨source, claim, url, confidence, metadata⟩ := x
  unfold EvidenceItem.toDict columnEvidence
  rw [jsonColumn_textKeys ["source", "claim", "url", "confidence", "metadata"] rfl (by decide)]
  cases url <;> cases confidence <;> simp [jsonColumn, jsonColumn_toVal, PyVal.optStr]

theorem columnItems_evidence (xs : List EvidenceItem) :
    columnItems (xs.map EvidenceItem.toDict) = (xs.map columnEvidence).map EvidenceItem.toDict := by
  rw [columnItems_eq_map, List.map_map, List.map_map]
  exact List.map_congr_left fun x _ => jsonColumn_evidence x

theorem jsonColumn_text (s : String) : jsonColumn (.text s) = .text s := rfl

theorem jsonColumn_optText (s : Option String) : jsonColumn (.optText s) = .optText s := by
  cases s <;> rfl

theorem jsonColumn_optStr (s : Option PyStr) :
    jsonColumn (.optStr s) = .optStr (s.map columnText) := by
  cases s <;> rfl

theorem columnItems_strs (ts : List PyStr) :
    columnItems (ts.map .str) = (ts.map columnText).map .str := by
  rw [columnItems_eq_map, List.map_map, List.map_map]
  rfl

theorem jsonColumn_texts (ts : List String) : jsonColumn (textsToVal ts) = textsToVal ts := by
  show PyVal.list (columnItems (ts.map PyVal.text)) = .list (ts.map PyVal.text)
  rw [columnItems_eq_map, List.map_map]
  rfl

theorem columnEntries_levels {d : Dict String Int} (h : (d.map Prod.fst).Nodup) :
    columnEntries (d.map fun e => (.str e.1, .int e.2)) [] =
      d.map fun e => (.str e.1, .int e.2) := by
  have hkept := jsonColumn_textKeys (d := d.map fun e => (.str e.1, .int e.2)) (d.map Prod.fst)
    (by simp) h
  rw [jsonColumn, PyVal.dict.injEq, List.map_map] at hkept
  exact hkept

/-- What is signed, after a column. -/
theorem jsonColumn_signingDict (e : WorkflowEvent) :
    jsonColumn e.signingDict = (columnEvent e).signingDict := by
  unfold WorkflowEvent.signingDict columnEvent
  rw [jsonColumn_textKeys ["agent_id", "human_owner_id", "workflow_id", "workflow_stage",
    "event_type", "intent", "authority_requested", "proposed_next_state", "expected_effect",
    "evidence", "confidence", "requires_execution", "nonce", "metadata"] rfl (by decide)]
  simp [jsonColumn, jsonColumn_text, columnItems_evidence, jsonColumn_toVal]

/-- The data of an event, after a column. -/
theorem jsonColumn_toDict (e : WorkflowEvent) : jsonColumn e.toDict = (columnEvent e).toDict := by
  unfold WorkflowEvent.toDict columnEvent
  rw [jsonColumn_textKeys ["agent_id", "human_owner_id", "workflow_id", "workflow_stage",
    "event_type", "intent", "authority_requested", "proposed_next_state", "expected_effect",
    "evidence", "confidence", "requires_execution", "nonce", "signature", "event_id", "timestamp",
    "metadata"] rfl (by decide)]
  simp [jsonColumn, jsonColumn_text, jsonColumn_optText, columnItems_evidence, jsonColumn_toVal]

/-- `SqlStore` reads back `columnEvent`. -/
theorem eventFromData_column (e : WorkflowEvent) :
    eventFromData (jsonColumn e.toDict) = some (columnEvent e) := by
  rw [jsonColumn_toDict, eventFromData_toDict]

/-- `SqlStore` reads back `columnRule`. -/
theorem ruleFromData_column (r : DelegationRule) :
    ruleFromData (jsonColumn r.toDict) = some (columnRule r) := by
  have hcolumn : jsonColumn r.toDict = (columnRule r).toDict := by
    unfold DelegationRule.toDict DelegationRule.entries columnRule
    rw [jsonColumn_textKeys ["rule_name", "workflow_id", "agent_id", "authority_class",
      "autonomy_level", "conditions", "requires_approval_if", "sample_rate", "active", "rule_id",
      "created_by", "created_at", "revoked_at", "revoked_reason", "metadata"] rfl (by decide)]
    simp [jsonColumn, jsonColumn_text, jsonColumn_optText, jsonColumn_optStr, jsonColumn_texts,
      jsonColumn_toVal]
  rw [hcolumn, ruleFromData_toDict]

/-- `SqlStore` reads back `columnAgent`, where no scope has two levels. -/
theorem agentFromData_column {a : AgentIdentity} (h : (a.currentAutonomy.map Prod.fst).Nodup) :
    agentFromData (jsonColumn a.toDict) = some (columnAgent a) := by
  have hcolumn : jsonColumn a.toDict = (columnAgent a).toDict := by
    unfold AgentIdentity.toDict columnAgent
    rw [jsonColumn_textKeys ["agent_id", "name", "owner_id", "purpose", "public_key_hex",
      "approved_workflows", "current_autonomy", "known_limitations", "incident_count", "active",
      "created_at"] rfl (by decide)]
    simp [jsonColumn, jsonColumn_text, jsonColumn_optText, jsonColumn_texts, columnEntries_levels h,
      columnItems_strs]
  rw [hcolumn, agentFromData_toDict]

end EarnedAutonomy
