import EarnedAutonomy.Lib.Simulation
import EarnedAutonomy.Storage.Rows

/-!
# The tables of the database

`SqlStore` one level down: four tables whose `data` columns hold what `to_dict` wrote,
as the JSON column returns it.  A query returns its rows in the order of their first
insertion.

* `Holds` says that the rows can be read as given objects.  Each call keeps it and
  answers with these objects.
* `tables_hold_columns`: the tables answer every sequence of calls as `SqlStore` does,
  where the objects are already the ones that come back.
* `stores_agree`: they answer as the in-memory store does, as long as the objects are
  JSON.
-/

namespace EarnedAutonomy

open OrderedDict Simulation

/-! ## Tables -/

/-- A row of `delegation_rules`. -/
structure RuleRow where
  agentId : String
  workflowId : String
  authorityClass : String
  data : PyVal

/-- The tables of `SqlStore`, by their primary keys. -/
structure SqlTables where
  agents : Dict String PyVal
  events : Dict String PyVal
  rules : Dict String RuleRow
  nonces : List (String × String)

namespace SqlTables

def empty : SqlTables := ⟨[], [], [], []⟩

def addAgent (a : AgentIdentity) (t : SqlTables) : SqlTables :=
  { t with agents := Dict.set t.agents a.agentId (jsonColumn a.toDict) }

def getAgent (agentId : String) (t : SqlTables) : Option (Option AgentIdentity) :=
  (Dict.get? t.agents agentId).mapM agentFromData

def addEvent (e : WorkflowEvent) (t : SqlTables) : SqlTables :=
  { t with events := Dict.set t.events e.eventId (jsonColumn e.toDict) }

def getEvent (eventId : String) (t : SqlTables) : Option (Option WorkflowEvent) :=
  (Dict.get? t.events eventId).mapM eventFromData

def addRule (r : DelegationRule) (t : SqlTables) : SqlTables :=
  { t with
    rules := Dict.set t.rules r.ruleId
      ⟨r.agentId, r.workflowId, r.authorityClass.value, jsonColumn r.toDict⟩ }

def getRule (ruleId : String) (t : SqlTables) : Option (Option DelegationRule) :=
  (Dict.get? t.rules ruleId).mapM fun row => ruleFromData row.data

/-- The rules in the rows that a query selects. -/
def selectRules (p : RuleRow → Bool) (t : SqlTables) : Option (List DelegationRule) :=
  ((t.rules.map Prod.snd).filter p).mapM fun row => ruleFromData row.data

def rulesFor (agentId workflowId authorityValue : String) (t : SqlTables) :
    Option (List DelegationRule) :=
  t.selectRules fun row => row.agentId = agentId && row.workflowId = workflowId &&
    row.authorityClass = authorityValue

def matchingRule (e : WorkflowEvent) (t : SqlTables) :
    Option (Except PyError (Option DelegationRule)) :=
  (t.rulesFor e.agentId e.workflowId e.authorityRequested.value).map (firstMatch e)

def allActiveRulesForAgent (agentId : String) (t : SqlTables) : Option (List DelegationRule) :=
  (t.selectRules fun row => row.agentId = agentId).map fun rules => rules.filter fun r => r.active

def seenNonce (agentId nonce : String) (t : SqlTables) : Bool := (agentId, nonce) ∈ t.nonces

/-- One insert under the unique constraint. -/
def claimNonce (agentId nonce : String) (t : SqlTables) : Bool × SqlTables :=
  if (agentId, nonce) ∈ t.nonces then (false, t)
  else (true, { t with nonces := (agentId, nonce) :: t.nonces })

end SqlTables

/-! ## Calls -/

/-- A call of a `Store`. -/
inductive StoreCall where
  | addAgent (agent : AgentIdentity)
  | getAgent (agentId : String)
  | addEvent (event : WorkflowEvent)
  | getEvent (eventId : String)
  | addRule (rule : DelegationRule)
  | getRule (ruleId : String)
  | matchingRule (event : WorkflowEvent)
  | rulesFor (agentId workflowId authorityValue : String)
  | allActiveRulesForAgent (agentId : String)
  | seenNonce (agentId nonce : String)
  | claimNonce (agentId nonce : String)

/-- What a call returns.  Data that is no object raises. -/
inductive StoreReply where
  | done
  | flag (b : Bool)
  | agent (found : Option AgentIdentity)
  | event (found : Option WorkflowEvent)
  | rule (found : Except PyError (Option DelegationRule))
  | rules (found : List DelegationRule)
  | unreadable

/-- What is read from rows, as a reply. -/
def StoreReply.ofRead {α : Type} (reply : α → StoreReply) : Option α → StoreReply
  | some x => reply x
  | none => .unreadable

/-- `seen_nonce` -/
class SeenNonce (S : Type) where
  seenNonce : String → String → S → Bool

instance : SeenNonce InMemoryStore where
  seenNonce agentId nonce s := (agentId, nonce) ∈ s.nonces

instance : SeenNonce SqlStore where
  seenNonce agentId nonce s := (agentId, nonce) ∈ s.nonces

/-- A call on a store of objects. -/
def StoreCall.run {S : Type} [Store S] [SeenNonce S] : StoreCall → S → StoreReply × S
  | .addAgent a, s => (.done, Store.addAgent a s)
  | .getAgent i, s => (.agent (Store.getAgent i s), s)
  | .addEvent e, s => (.done, Store.addEvent e s)
  | .getEvent i, s => (.event (Store.getEvent i s), s)
  | .addRule r, s => (.done, Store.addRule r s)
  | .getRule i, s => (.rule (.ok (Store.getRule i s)), s)
  | .matchingRule e, s => (.rule (Store.matchingRule e s), s)
  | .rulesFor a w c, s => (.rules (Store.rulesFor a w c s), s)
  | .allActiveRulesForAgent a, s => (.rules (Store.allActiveRulesForAgent a s), s)
  | .seenNonce a n, s => (.flag (SeenNonce.seenNonce a n s), s)
  | .claimNonce a n, s =>
      let (b, s) := Store.claimNonce a n s
      (.flag b, s)

/-- A call on the tables. -/
def SqlTables.run : StoreCall → SqlTables → StoreReply × SqlTables
  | .addAgent a, t => (.done, t.addAgent a)
  | .getAgent i, t => (.ofRead .agent (t.getAgent i), t)
  | .addEvent e, t => (.done, t.addEvent e)
  | .getEvent i, t => (.ofRead .event (t.getEvent i), t)
  | .addRule r, t => (.done, t.addRule r)
  | .getRule i, t => (.ofRead (fun found => .rule (.ok found)) (t.getRule i), t)
  | .matchingRule e, t => (.ofRead .rule (t.matchingRule e), t)
  | .rulesFor a w c, t => (.ofRead .rules (t.rulesFor a w c), t)
  | .allActiveRulesForAgent a, t => (.ofRead .rules (t.allActiveRulesForAgent a), t)
  | .seenNonce a n, t => (.flag (t.seenNonce a n), t)
  | .claimNonce a n, t =>
      let (b, t) := t.claimNonce a n
      (.flag b, t)

/-! ## Rows that can be read -/

/-- The row is one of the rule, and its data is read as the rule. -/
structure RuleRow.Of (row : RuleRow) (r : DelegationRule) : Prop where
  agentId : row.agentId = r.agentId
  workflowId : row.workflowId = r.workflowId
  authorityClass : row.authorityClass = r.authorityClass.value
  data : ruleFromData row.data = some r

/-- The rows of the tables are read as these objects. -/
structure Holds (t : SqlTables) (agents : Dict String AgentIdentity)
    (events : Dict String WorkflowEvent) (rules : Dict String DelegationRule)
    (nonces : List (String × String)) : Prop where
  agents : Dict.Agree (fun data a => agentFromData data = some a) t.agents agents
  events : Dict.Agree (fun data e => eventFromData data = some e) t.events events
  rules : Dict.Agree RuleRow.Of t.rules rules
  nonces : t.nonces = nonces

theorem mapM_of_forall₂ {α β : Type} {R : α → β → Prop} {read : α → Option β} {rows : List α}
    {objects : List β} (hread : ∀ row x, R row x → read row = some x)
    (h : List.Forall₂ R rows objects) : rows.mapM read = some objects := by
  induction h with
  | nil => rfl
  | cons hrow _ ih =>
    rw [List.mapM_cons, hread _ _ hrow, ih]
    rfl

theorem mapM_of_rel {α β : Type} {R : α → β → Prop} {read : α → Option β} {row : Option α}
    {object : Option β} (hread : ∀ row x, R row x → read row = some x)
    (h : Option.Rel R row object) : row.mapM read = some object := by
  cases h with
  | none => rfl
  | some hrow =>
    show (read _).map some = _
    rw [hread _ _ hrow]
    rfl

section

variable {t : SqlTables} {agents : Dict String AgentIdentity} {events : Dict String WorkflowEvent}
variable {rules : Dict String DelegationRule} {nonces : List (String × String)}

theorem Holds.getAgent (h : Holds t agents events rules nonces) (agentId : String) :
    t.getAgent agentId = some (Dict.get? agents agentId) :=
  mapM_of_rel (fun _ _ => id) (h.agents.get? agentId)

theorem Holds.getEvent (h : Holds t agents events rules nonces) (eventId : String) :
    t.getEvent eventId = some (Dict.get? events eventId) :=
  mapM_of_rel (fun _ _ => id) (h.events.get? eventId)

theorem Holds.getRule (h : Holds t agents events rules nonces) (ruleId : String) :
    t.getRule ruleId = some (Dict.get? rules ruleId) :=
  mapM_of_rel (fun _ _ hrow => hrow.data) (h.rules.get? ruleId)

/-- A query that asks of a row what a test asks of its rule selects these rules. -/
theorem Holds.selectRules (h : Holds t agents events rules nonces) {p : RuleRow → Bool}
    {q : DelegationRule → Bool} (hpq : ∀ row r, row.Of r → p row = q r) :
    t.selectRules p = some ((rules.map Prod.snd).filter q) := by
  apply mapM_of_forall₂ (R := RuleRow.Of) (fun _ _ hrow => hrow.data)
  apply List.rel_filter _ h.rules.values
  intro row r hrow
  show p row = true ↔ q r = true
  rw [hpq row r hrow]

theorem Holds.rulesFor (h : Holds t agents events rules nonces) (a w c : String) :
    t.rulesFor a w c = some ((rules.map Prod.snd).filter (·.inScope a w c)) := by
  apply h.selectRules
  intro row r hrow
  rw [hrow.agentId, hrow.workflowId, hrow.authorityClass]
  rfl

theorem Holds.matchingRule (h : Holds t agents events rules nonces) (e : WorkflowEvent) :
    t.matchingRule e = some (firstMatch e (rules.map Prod.snd)) := by
  unfold SqlTables.matchingRule
  rw [h.rulesFor, Option.map_some, firstMatch_filter_inScope]

theorem Holds.allActiveRulesForAgent (h : Holds t agents events rules nonces) (a : String) :
    t.allActiveRulesForAgent a =
      some ((rules.map Prod.snd).filter fun r => r.agentId = a && r.active) := by
  unfold SqlTables.allActiveRulesForAgent
  rw [h.selectRules (q := fun r => decide (r.agentId = a)), Option.map_some, List.filter_filter]
  · simp only [Bool.and_comm]
  · intro row r hrow
    rw [hrow.agentId]

theorem Holds.addAgent (h : Holds t agents events rules nonces) {a kept : AgentIdentity}
    (hkept : agentFromData (jsonColumn a.toDict) = some kept) :
    Holds (t.addAgent a) (Dict.set agents a.agentId kept) events rules nonces :=
  ⟨h.agents.set hkept a.agentId, h.events, h.rules, h.nonces⟩

theorem Holds.addEvent (h : Holds t agents events rules nonces) {e kept : WorkflowEvent}
    (hkept : eventFromData (jsonColumn e.toDict) = some kept) :
    Holds (t.addEvent e) agents (Dict.set events e.eventId kept) rules nonces :=
  ⟨h.agents, h.events.set hkept e.eventId, h.rules, h.nonces⟩

theorem Holds.addRule (h : Holds t agents events rules nonces) {r kept : DelegationRule}
    (hscope : kept.agentId = r.agentId ∧ kept.workflowId = r.workflowId ∧
      kept.authorityClass = r.authorityClass)
    (hkept : ruleFromData (jsonColumn r.toDict) = some kept) :
    Holds (t.addRule r) agents events (Dict.set rules r.ruleId kept) nonces := by
  obtain ⟨hagent, hworkflow, hclass⟩ := hscope
  have hrow : RuleRow.Of ⟨r.agentId, r.workflowId, r.authorityClass.value, jsonColumn r.toDict⟩
      kept := ⟨hagent.symm, hworkflow.symm, congrArg AuthorityClass.value hclass.symm, hkept⟩
  exact ⟨h.agents, h.events, h.rules.set hrow r.ruleId, h.nonces⟩

theorem Holds.seenNonce (h : Holds t agents events rules nonces) (a n : String) :
    t.seenNonce a n = decide ((a, n) ∈ nonces) := by
  rw [SqlTables.seenNonce, h.nonces]

/-- A pair that is not there is claimed, and then it is. -/
theorem Holds.claimNonce (h : Holds t agents events rules nonces) (a n : String) :
    if (a, n) ∈ nonces then t.claimNonce a n = (false, t)
    else (t.claimNonce a n).1 = true ∧
      Holds (t.claimNonce a n).2 agents events rules ((a, n) :: nonces) := by
  obtain ⟨hagents, hevents, hrules, rfl⟩ := h
  unfold SqlTables.claimNonce
  split
  · rfl
  · exact ⟨rfl, hagents, hevents, hrules, rfl⟩

end

/-! ## Every sequence of calls -/

/-- The levels of an agent are those of a `dict`. -/
def StoreCall.Keyed : StoreCall → Prop
  | .addAgent a => (a.currentAutonomy.map Prod.fst).Nodup
  | _ => True

/-- What is stored is JSON. -/
def StoreCall.isJson : StoreCall → Bool
  | .addAgent a => jsonStable a.toDict
  | .addEvent e => jsonStable e.toDict
  | .addRule r => jsonStable r.toDict
  | _ => true

/-- The rows of `SqlStore` are read as its objects. -/
theorem simulates_sqlStore : Simulates (.each StoreCall.Keyed) SqlTables.run
    (StoreCall.run (S := SqlStore)) fun _ t s => Holds t s.agents s.events s.rules s.nonces where
  answer {_ t s call} h _ := by
    cases call with
    | getAgent i => exact congrArg (StoreReply.ofRead .agent) (h.getAgent i)
    | getEvent i => exact congrArg (StoreReply.ofRead .event) (h.getEvent i)
    | getRule i => exact congrArg (StoreReply.ofRead _) (h.getRule i)
    | matchingRule e =>
      refine (congrArg (StoreReply.ofRead .rule) (h.matchingRule e)).trans ?_
      rw [← firstMatch_filter_inScope]
      rfl
    | rulesFor a w c => exact congrArg (StoreReply.ofRead .rules) (h.rulesFor a w c)
    | allActiveRulesForAgent a =>
      refine (congrArg (StoreReply.ofRead .rules) (h.allActiveRulesForAgent a)).trans ?_
      show StoreReply.rules _ = .rules (((s.rules.map Prod.snd).filter _).filter _)
      rw [List.filter_filter]
      simp only [Bool.and_comm]
    | seenNonce a n => exact congrArg StoreReply.flag (h.seenNonce a n)
    | claimNonce a n =>
      have hclaim := h.claimNonce a n
      show StoreReply.flag (t.claimNonce a n).1 = .flag (SqlStore.claimNonce a n s).1
      unfold SqlStore.claimNonce
      split at hclaim
      · rename_i hmem
        rw [hclaim, if_pos hmem]
      · rename_i hmem
        rw [hclaim.1, if_neg hmem]
    | _ => rfl
  keeps {_ t s call} h hcall := by
    cases call with
    | addAgent a => exact h.addAgent (agentFromData_column hcall)
    | addEvent e => exact h.addEvent (eventFromData_column e)
    | addRule r => exact h.addRule ⟨rfl, rfl, rfl⟩ (ruleFromData_column r)
    | claimNonce a n =>
      have hclaim := h.claimNonce a n
      show Holds (t.claimNonce a n).2 (SqlStore.claimNonce a n s).2.agents
        (SqlStore.claimNonce a n s).2.events (SqlStore.claimNonce a n s).2.rules
        (SqlStore.claimNonce a n s).2.nonces
      unfold SqlStore.claimNonce
      split at hclaim
      · rename_i hmem
        rw [hclaim, if_pos hmem]
        exact h
      · rename_i hmem
        rw [if_neg hmem]
        exact hclaim.2
    | _ => exact h

/-- The rows of JSON objects are read as the objects themselves. -/
theorem simulates_inMemoryStore : Simulates (.each fun call => call.isJson = true) SqlTables.run
    (StoreCall.run (S := InMemoryStore)) fun _ t m =>
      Holds t m.agents m.events m.rules m.nonces where
  answer {_ t m call} h _ := by
    cases call with
    | getAgent i => exact congrArg (StoreReply.ofRead .agent) (h.getAgent i)
    | getEvent i => exact congrArg (StoreReply.ofRead .event) (h.getEvent i)
    | getRule i => exact congrArg (StoreReply.ofRead _) (h.getRule i)
    | matchingRule e => exact congrArg (StoreReply.ofRead .rule) (h.matchingRule e)
    | rulesFor a w c => exact congrArg (StoreReply.ofRead .rules) (h.rulesFor a w c)
    | allActiveRulesForAgent a =>
      exact congrArg (StoreReply.ofRead .rules) (h.allActiveRulesForAgent a)
    | seenNonce a n => exact congrArg StoreReply.flag (h.seenNonce a n)
    | claimNonce a n =>
      have hclaim := h.claimNonce a n
      show StoreReply.flag (t.claimNonce a n).1 = .flag (InMemoryStore.claimNonce a n m).1
      unfold InMemoryStore.claimNonce
      split at hclaim
      · rename_i hmem
        rw [hclaim, if_pos hmem]
      · rename_i hmem
        rw [hclaim.1, if_neg hmem]
    | _ => rfl
  keeps {_ t m call} h hcall := by
    cases call with
    | addAgent a =>
      apply h.addAgent
      rw [jsonColumn_eq_self hcall, agentFromData_toDict]
    | addEvent e =>
      apply h.addEvent
      rw [jsonColumn_eq_self hcall, eventFromData_toDict]
    | addRule r =>
      apply h.addRule ⟨rfl, rfl, rfl⟩
      rw [jsonColumn_eq_self hcall, ruleFromData_toDict]
    | claimNonce a n =>
      have hclaim := h.claimNonce a n
      show Holds (t.claimNonce a n).2 (InMemoryStore.claimNonce a n m).2.agents
        (InMemoryStore.claimNonce a n m).2.events (InMemoryStore.claimNonce a n m).2.rules
        (InMemoryStore.claimNonce a n m).2.nonces
      unfold InMemoryStore.claimNonce
      split at hclaim
      · rename_i hmem
        rw [hclaim, if_pos hmem]
        exact h
      · rename_i hmem
        rw [if_neg hmem]
        exact hclaim.2
    | _ => exact h

theorem holds_empty : Holds .empty [] [] [] [] :=
  ⟨List.Forall₂.nil, List.Forall₂.nil, List.Forall₂.nil, rfl⟩

/-- `SqlStore` is what the tables hold, for any objects. -/
theorem tables_hold_columns (calls : List StoreCall) (h : ∀ call ∈ calls, call.Keyed) :
    answers SqlTables.run .empty calls = answers StoreCall.run SqlStore.empty calls :=
  simulates_sqlStore.answers_eq holds_empty (Protocol.admits_each h)

/-- With JSON objects, the database gives the same answers as the in-memory store. -/
theorem stores_agree (calls : List StoreCall) (h : ∀ call ∈ calls, call.isJson = true) :
    answers SqlTables.run .empty calls = answers StoreCall.run InMemoryStore.empty calls :=
  simulates_inMemoryStore.answers_eq holds_empty (Protocol.admits_each h)

/-- A claim that is small enough for its rule, and a nonce that is used twice. -/
def claimCalls : List StoreCall :=
  let agent : AgentIdentity := {
    agentId := "agent", name := "Claims agent", ownerId := "owner", purpose := "Claims",
    publicKeyHex := none, approvedWorkflows := ["claims"],
    currentAutonomy := [("claims:modify_internal_record", 3)], knownLimitations := ["No appeals"],
    incidentCount := 0, active := true, createdAt := "2026-01-01" }
  let event : WorkflowEvent := {
    agentId := "agent", humanOwnerId := "owner", workflowId := "claims", workflowStage := "review",
    eventType := .proposedAction, intent := "Update the claim",
    authorityRequested := .modifyInternalRecord, proposedNextState := "updated",
    expectedEffect := "The record is up to date",
    evidence := [⟨"crm", "The amount is known", none, some (.exact 3 2), [("page", .int 2)]⟩],
    confidence := .exact 1 1, requiresExecution := true, nonce := "n1", signature := none,
    eventId := "evt_1", timestamp := "2026-01-01", metadata := [("amount", .int 120)] }
  let rule : DelegationRule := {
    ruleName := "Small claims", workflowId := "claims", agentId := "agent",
    authorityClass := .modifyInternalRecord, autonomyLevel := .executeWithSampling,
    conditions := [("amount", .dict [("max", .int 500)])], ruleId := "rule_1",
    createdAt := "2026-01-01" }
  [.addAgent agent, .addEvent event, .addRule rule, .getAgent "agent", .getEvent "evt_1",
    .matchingRule event, .rulesFor "agent" "claims" "modify_internal_record",
    .claimNonce "agent" "n1", .seenNonce "agent" "n1", .claimNonce "agent" "n1",
    .addRule { rule with active := false }, .matchingRule event, .allActiveRulesForAgent "agent"]

theorem claimCalls_agree : answers SqlTables.run .empty claimCalls =
    answers StoreCall.run InMemoryStore.empty claimCalls := by
  apply stores_agree
  decide

end EarnedAutonomy
