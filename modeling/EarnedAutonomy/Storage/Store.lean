import EarnedAutonomy.Core.Models
import Mathlib.Logic.Function.Basic

/-!
# Agents, events, rules and nonces

The stores of `storage/memory.py` and `storage/sql.py`.

* `Store` is the interface.  `touchAgent` and `touchEvent` are not calls of the
  source: they stand for a change to an object the store has handed out or was
  given.  In memory such a change shows in the store, in the database it does
  not.
* `InMemoryStore` keeps the objects themselves.
* `SqlStore` keeps one row for each object, whose free-form fields have passed
  through a JSON column.
* `StoreView` is what a store holds, as maps.  `LawfulStore` says what each call
  does to it, and is all that results about either store use.
-/

namespace EarnedAutonomy

open OrderedDict

/-- The pairs of an agent and a nonce are compared as they are. -/
instance lawfulBEqNonce : LawfulBEq (String × String) := inferInstance

/-- `Store` -/
class Store (S : Type) where
  empty : S
  addAgent : AgentIdentity → S → S
  getAgent : String → S → Option AgentIdentity
  addEvent : WorkflowEvent → S → S
  getEvent : String → S → Option WorkflowEvent
  addRule : DelegationRule → S → S
  getRule : String → S → Option DelegationRule
  matchingRule : WorkflowEvent → S → Except PyError (Option DelegationRule)
  rulesFor : String → String → String → S → List DelegationRule
  allActiveRulesForAgent : String → S → List DelegationRule
  claimNonce : String → String → S → Bool × S
  touchAgent : AgentIdentity → S → S
  touchEvent : WorkflowEvent → S → S

/-- The first rule that matches.  A comparison that fails ends the search. -/
def firstMatch (e : WorkflowEvent) : List DelegationRule → Except PyError (Option DelegationRule)
  | [] => .ok none
  | r :: rest => do
      if ← r.matchesEvent e then return some r
      firstMatch e rest

/-- The rule is about this scope. -/
def DelegationRule.inScope (r : DelegationRule) (agentId workflowId authorityValue : String) :
    Bool :=
  r.agentId = agentId && r.workflowId = workflowId && r.authorityClass.value = authorityValue

/-! ## The in-memory store -/

/-- `InMemoryStore` -/
structure InMemoryStore where
  agents : Dict String AgentIdentity
  events : Dict String WorkflowEvent
  rules : Dict String DelegationRule
  nonces : List (String × String)
  nodup : (rules.map Prod.fst).Nodup
  keyed : ∀ e ∈ rules, e.2.ruleId = e.1

namespace InMemoryStore

def empty : InMemoryStore := ⟨[], [], [], [], List.nodup_nil, fun _ h => nomatch h⟩

def addAgent (a : AgentIdentity) (s : InMemoryStore) : InMemoryStore :=
  { s with agents := Dict.set s.agents a.agentId a }

def addEvent (e : WorkflowEvent) (s : InMemoryStore) : InMemoryStore :=
  { s with events := Dict.set s.events e.eventId e }

def addRule (r : DelegationRule) (s : InMemoryStore) : InMemoryStore :=
  { s with
    rules := Dict.set s.rules r.ruleId r
    nodup := Dict.nodup_set s.nodup _ _
    keyed := fun e he => by
      rcases Dict.mem_set s.nodup he with rfl | ⟨he, _⟩
      · rfl
      · exact s.keyed e he }

def matchingRule (e : WorkflowEvent) (s : InMemoryStore) :
    Except PyError (Option DelegationRule) :=
  firstMatch e (s.rules.map Prod.snd)

def rulesFor (agentId workflowId authorityValue : String) (s : InMemoryStore) :
    List DelegationRule :=
  (s.rules.map Prod.snd).filter (·.inScope agentId workflowId authorityValue)

def allActiveRulesForAgent (agentId : String) (s : InMemoryStore) : List DelegationRule :=
  (s.rules.map Prod.snd).filter fun r => r.agentId = agentId && r.active

def claimNonce (agentId nonce : String) (s : InMemoryStore) : Bool × InMemoryStore :=
  if (agentId, nonce) ∈ s.nonces then (false, s)
  else (true, { s with nonces := (agentId, nonce) :: s.nonces })

instance : Store InMemoryStore where
  empty := empty
  addAgent := addAgent
  getAgent agentId s := Dict.get? s.agents agentId
  addEvent := addEvent
  getEvent eventId s := Dict.get? s.events eventId
  addRule := addRule
  getRule ruleId s := Dict.get? s.rules ruleId
  matchingRule := matchingRule
  rulesFor := rulesFor
  allActiveRulesForAgent := allActiveRulesForAgent
  claimNonce := claimNonce
  touchAgent := addAgent
  touchEvent := addEvent

end InMemoryStore

/-! ## The database -/

/-- An agent after its JSON column. -/
def columnAgent (a : AgentIdentity) : AgentIdentity :=
  { a with
    name := columnText a.name
    purpose := columnText a.purpose
    knownLimitations := a.knownLimitations.map columnText }

/-- A piece of evidence after its JSON column. -/
def columnEvidence (e : EvidenceItem) : EvidenceItem where
  source := columnText e.source
  claim := columnText e.claim
  url := e.url.map columnText
  confidence := e.confidence.map columnFloat
  metadata := columnMapping e.metadata

/-- An event after its JSON column. -/
def columnEvent (e : WorkflowEvent) : WorkflowEvent :=
  { e with
    workflowStage := columnText e.workflowStage
    intent := columnText e.intent
    proposedNextState := columnText e.proposedNextState
    expectedEffect := columnText e.expectedEffect
    evidence := e.evidence.map columnEvidence
    confidence := columnFloat e.confidence
    metadata := columnMapping e.metadata }

/-- A rule after its JSON column. -/
def columnRule (r : DelegationRule) : DelegationRule :=
  { r with
    ruleName := columnText r.ruleName
    conditions := columnMapping r.conditions
    sampleRate := columnFloat r.sampleRate
    revokedReason := r.revokedReason.map columnText
    metadata := columnMapping r.metadata }

/-- `SqlStore`: the tables, with the objects as they come back from them. -/
structure SqlStore where
  agents : Dict String AgentIdentity
  events : Dict String WorkflowEvent
  rules : Dict String DelegationRule
  nonces : List (String × String)
  nodup : (rules.map Prod.fst).Nodup
  keyed : ∀ e ∈ rules, e.2.ruleId = e.1

namespace SqlStore

def empty : SqlStore := ⟨[], [], [], [], List.nodup_nil, fun _ h => nomatch h⟩

def addAgent (a : AgentIdentity) (s : SqlStore) : SqlStore :=
  { s with agents := Dict.set s.agents a.agentId (columnAgent a) }

def addEvent (e : WorkflowEvent) (s : SqlStore) : SqlStore :=
  { s with events := Dict.set s.events e.eventId (columnEvent e) }

def addRule (r : DelegationRule) (s : SqlStore) : SqlStore :=
  { s with
    rules := Dict.set s.rules r.ruleId (columnRule r)
    nodup := Dict.nodup_set s.nodup _ _
    keyed := fun e he => by
      rcases Dict.mem_set s.nodup he with rfl | ⟨he, _⟩
      · rfl
      · exact s.keyed e he }

/-- The rows of a scope, in the order of their insertion. -/
def rulesFor (agentId workflowId authorityValue : String) (s : SqlStore) :
    List DelegationRule :=
  (s.rules.map Prod.snd).filter (·.inScope agentId workflowId authorityValue)

def matchingRule (e : WorkflowEvent) (s : SqlStore) : Except PyError (Option DelegationRule) :=
  firstMatch e (s.rulesFor e.agentId e.workflowId e.authorityRequested.value)

def allActiveRulesForAgent (agentId : String) (s : SqlStore) : List DelegationRule :=
  ((s.rules.map Prod.snd).filter fun r => r.agentId = agentId).filter fun r => r.active

/-- One insert under the unique constraint. -/
def claimNonce (agentId nonce : String) (s : SqlStore) : Bool × SqlStore :=
  if (agentId, nonce) ∈ s.nonces then (false, s)
  else (true, { s with nonces := (agentId, nonce) :: s.nonces })

instance : Store SqlStore where
  empty := empty
  addAgent := addAgent
  getAgent agentId s := Dict.get? s.agents agentId
  addEvent := addEvent
  getEvent eventId s := Dict.get? s.events eventId
  addRule := addRule
  getRule ruleId s := Dict.get? s.rules ruleId
  matchingRule := matchingRule
  rulesFor := rulesFor
  allActiveRulesForAgent := allActiveRulesForAgent
  claimNonce := claimNonce
  touchAgent _ s := s
  touchEvent _ s := s

end SqlStore

/-! ## What a store holds -/

/-- The contents of a store, as maps. -/
@[ext] structure StoreView where
  agents : String → Option AgentIdentity
  events : String → Option WorkflowEvent
  rules : String → Option DelegationRule
  nonces : String → String → Bool

namespace StoreView

def empty : StoreView := ⟨fun _ => none, fun _ => none, fun _ => none, fun _ _ => false⟩

def setAgent (v : StoreView) (a : AgentIdentity) : StoreView :=
  { v with agents := Function.update v.agents a.agentId (some a) }

def setEvent (v : StoreView) (e : WorkflowEvent) : StoreView :=
  { v with events := Function.update v.events e.eventId (some e) }

def setRule (v : StoreView) (r : DelegationRule) : StoreView :=
  { v with rules := Function.update v.rules r.ruleId (some r) }

def addNonce (v : StoreView) (agentId nonce : String) : StoreView :=
  { v with nonces := fun a n => (a = agentId && n = nonce) || v.nonces a n }

@[simp] theorem agents_setAgent (v : StoreView) (a : AgentIdentity) (i : String) :
    (v.setAgent a).agents i = if i = a.agentId then some a else v.agents i := by
  simp [setAgent, Function.update_apply]

@[simp] theorem events_setEvent (v : StoreView) (e : WorkflowEvent) (i : String) :
    (v.setEvent e).events i = if i = e.eventId then some e else v.events i := by
  simp [setEvent, Function.update_apply]

@[simp] theorem rules_setRule (v : StoreView) (r : DelegationRule) (i : String) :
    (v.setRule r).rules i = if i = r.ruleId then some r else v.rules i := by
  simp [setRule, Function.update_apply]

@[simp] theorem rules_setAgent (v : StoreView) (a : AgentIdentity) :
    (v.setAgent a).rules = v.rules := rfl

@[simp] theorem rules_setEvent (v : StoreView) (e : WorkflowEvent) :
    (v.setEvent e).rules = v.rules := rfl

@[simp] theorem rules_addNonce (v : StoreView) (a n : String) :
    (v.addNonce a n).rules = v.rules := rfl

@[simp] theorem agents_setEvent (v : StoreView) (e : WorkflowEvent) :
    (v.setEvent e).agents = v.agents := rfl

@[simp] theorem agents_setRule (v : StoreView) (r : DelegationRule) :
    (v.setRule r).agents = v.agents := rfl

@[simp] theorem agents_addNonce (v : StoreView) (a n : String) :
    (v.addNonce a n).agents = v.agents := rfl

@[simp] theorem nonces_setAgent (v : StoreView) (a : AgentIdentity) :
    (v.setAgent a).nonces = v.nonces := rfl

@[simp] theorem nonces_setEvent (v : StoreView) (e : WorkflowEvent) :
    (v.setEvent e).nonces = v.nonces := rfl

@[simp] theorem nonces_setRule (v : StoreView) (r : DelegationRule) :
    (v.setRule r).nonces = v.nonces := rfl

@[simp] theorem nonces_addNonce (v : StoreView) (a n a' n' : String) :
    (v.addNonce a n).nonces a' n' = ((a' = a && n' = n) || v.nonces a' n') := rfl

end StoreView

open Store

/-- What a store does, in terms of what it holds. -/
class LawfulStore (S : Type) [Store S] where
  view : S → StoreView
  /-- What the store keeps of the objects it is given. -/
  keptAgent : AgentIdentity → AgentIdentity
  keptEvent : WorkflowEvent → WorkflowEvent
  keptRule : DelegationRule → DelegationRule
  view_empty : view empty = .empty
  view_addAgent : ∀ a s, view (addAgent a s) = (view s).setAgent (keptAgent a)
  view_addEvent : ∀ e s, view (addEvent e s) = (view s).setEvent (keptEvent e)
  view_addRule : ∀ r s, view (addRule r s) = (view s).setRule (keptRule r)
  view_claimNonce : ∀ a n s, (claimNonce a n s).1 = !(view s).nonces a n ∧
    view (claimNonce a n s).2 = (view s).addNonce a n
  /-- A change to an object shows in the store or it does not. -/
  view_touchAgent : ∀ a s, view (touchAgent a s) = view s ∨
    view (touchAgent a s) = (view s).setAgent a
  view_touchEvent : ∀ e s, view (touchEvent e s) = view s ∨
    view (touchEvent e s) = (view s).setEvent e
  getAgent_eq : ∀ i s, getAgent i s = (view s).agents i
  getEvent_eq : ∀ i s, getEvent i s = (view s).events i
  getRule_eq : ∀ i s, getRule i s = (view s).rules i
  mem_rulesFor : ∀ a w c s r, r ∈ rulesFor a w c s ↔
    (view s).rules r.ruleId = some r ∧ r.inScope a w c = true
  /-- A matching rule is one of the store, and it matches. -/
  matchingRule_some : ∀ e s r, matchingRule e s = .ok (some r) →
    (view s).rules r.ruleId = some r ∧ r.matchesEvent e = .ok true
  /-- The search for a rule looks at rules alone. -/
  matchingRule_addEvent : ∀ e e' (s : S), matchingRule e (addEvent e' s) = matchingRule e s
  matchingRule_claimNonce : ∀ e a n (s : S), matchingRule e (claimNonce a n s).2 = matchingRule e s
  agentId_kept : ∀ a, (keptAgent a).agentId = a.agentId
  ownerId_kept : ∀ a, (keptAgent a).ownerId = a.ownerId
  publicKeyHex_kept : ∀ a, (keptAgent a).publicKeyHex = a.publicKeyHex
  currentAutonomy_kept : ∀ a, (keptAgent a).currentAutonomy = a.currentAutonomy
  active_kept : ∀ a, (keptAgent a).active = a.active
  eventScope_kept : ∀ e, (keptEvent e).eventId = e.eventId ∧ (keptEvent e).agentId = e.agentId ∧
    (keptEvent e).workflowId = e.workflowId ∧
    (keptEvent e).authorityRequested = e.authorityRequested
  ruleId_kept : ∀ r, (keptRule r).ruleId = r.ruleId
  ruleScope_kept : ∀ r, (keptRule r).agentId = r.agentId ∧
    (keptRule r).workflowId = r.workflowId ∧ (keptRule r).authorityClass = r.authorityClass
  ruleActive_kept : ∀ r, (keptRule r).active = r.active
  createdBy_kept : ∀ r, (keptRule r).createdBy = r.createdBy

/-! ## Both stores are lawful -/

theorem firstMatch_some {e : WorkflowEvent} {rules : List DelegationRule} {r : DelegationRule}
    (h : firstMatch e rules = .ok (some r)) : r ∈ rules ∧ r.matchesEvent e = .ok true := by
  induction rules with
  | nil => cases h
  | cons x rest ih =>
    simp only [firstMatch] at h
    cases hx : x.matchesEvent e with
    | error err =>
      rw [hx] at h
      cases h
    | ok found =>
      rw [hx] at h
      cases found with
      | true =>
        cases h
        exact ⟨List.mem_cons_self, hx⟩
      | false =>
        obtain ⟨hmem, hmatch⟩ := ih h
        exact ⟨List.mem_cons_of_mem _ hmem, hmatch⟩

/-- A rule of another scope does not match, whatever its conditions. -/
theorem matchesEvent_of_not_inScope {r : DelegationRule} {e : WorkflowEvent}
    (h : r.inScope e.agentId e.workflowId e.authorityRequested.value = false) :
    r.matchesEvent e = .ok false := by
  unfold DelegationRule.matchesEvent
  split
  · rfl
  split
  · rfl
  split
  · rfl
  split
  · rfl
  · rename_i hworkflow hagent hclass
    simp_all [DelegationRule.inScope]

/-- The search may skip the rules of other scopes. -/
theorem firstMatch_filter_inScope (e : WorkflowEvent) (rules : List DelegationRule) :
    firstMatch e (rules.filter (·.inScope e.agentId e.workflowId e.authorityRequested.value)) =
      firstMatch e rules := by
  induction rules with
  | nil => rfl
  | cons r rest ih =>
    rw [List.filter_cons]
    split
    · rw [firstMatch, firstMatch, ih]
    · rename_i hscope
      rw [ih, firstMatch, matchesEvent_of_not_inScope (Bool.eq_false_iff.mpr hscope)]
      rfl

private theorem get?_set_eq_update {V : Type} (d : Dict String V) (k : String) (v : V) :
    (fun i => Dict.get? (Dict.set d k v) i) =
      Function.update (fun i => Dict.get? d i) k (some v) := by
  funext i
  rw [Dict.get?_set]
  by_cases h : k = i
  · subst h
    simp
  · rw [if_neg h, Function.update_of_ne (Ne.symm h)]

private theorem mem_claimed (nonces : List (String × String)) (agentId nonce a n : String) :
    decide ((a, n) ∈ if (agentId, nonce) ∈ nonces then nonces else (agentId, nonce) :: nonces) =
      ((a = agentId && n = nonce) || decide ((a, n) ∈ nonces)) := by
  rw [Bool.eq_iff_iff]
  split
  · rename_i h
    simp only [decide_eq_true_eq, Bool.or_eq_true, Bool.and_eq_true]
    constructor
    · exact Or.inr
    · rintro (⟨rfl, rfl⟩ | h')
      · exact h
      · exact h'
  · simp [Prod.mk.injEq]

/-- The rules of a table are found under their ids. -/
theorem mem_rules_iff {d : Dict String DelegationRule} (hd : (d.map Prod.fst).Nodup)
    (hkeyed : ∀ e ∈ d, e.2.ruleId = e.1) {r : DelegationRule} :
    r ∈ d.map Prod.snd ↔ Dict.get? d r.ruleId = some r := by
  rw [Dict.get?_eq_some_iff hd, List.mem_map]
  constructor
  · rintro ⟨⟨k, r'⟩, he, rfl⟩
    have hk := hkeyed _ he
    simp only at hk
    rwa [hk]
  · exact fun h => ⟨_, h, rfl⟩

instance : LawfulStore InMemoryStore where
  view s := ⟨fun i => Dict.get? s.agents i, fun i => Dict.get? s.events i,
    fun i => Dict.get? s.rules i, fun a n => (a, n) ∈ s.nonces⟩
  keptAgent := id
  keptEvent := id
  keptRule := id
  view_empty := by
    ext <;> simp [empty, InMemoryStore.empty, StoreView.empty]
  view_addAgent a s := StoreView.ext (get?_set_eq_update _ _ _) rfl rfl rfl
  view_addEvent e s := StoreView.ext rfl (get?_set_eq_update _ _ _) rfl rfl
  view_addRule r s := StoreView.ext rfl rfl (get?_set_eq_update _ _ _) rfl
  view_claimNonce a n s := by
    constructor
    · simp only [claimNonce, InMemoryStore.claimNonce]
      by_cases h : (a, n) ∈ s.nonces <;> simp [h]
    · have h := mem_claimed s.nonces a n
      simp only [claimNonce, InMemoryStore.claimNonce]
      split <;> rename_i hmem
      · simp only [hmem, if_true] at h
        exact StoreView.ext rfl rfl rfl (funext fun b => funext fun m => h b m)
      · simp only [hmem, if_false] at h
        exact StoreView.ext rfl rfl rfl (funext fun b => funext fun m => h b m)
  view_touchAgent a s := Or.inr (StoreView.ext (get?_set_eq_update _ _ _) rfl rfl rfl)
  view_touchEvent e s := Or.inr (StoreView.ext rfl (get?_set_eq_update _ _ _) rfl rfl)
  getAgent_eq _ _ := rfl
  getEvent_eq _ _ := rfl
  getRule_eq _ _ := rfl
  mem_rulesFor a w c s r := by
    simp only [rulesFor, InMemoryStore.rulesFor, List.mem_filter, mem_rules_iff s.nodup s.keyed]
  matchingRule_some e s r h := by
    obtain ⟨hmem, hmatch⟩ := firstMatch_some h
    exact ⟨(mem_rules_iff s.nodup s.keyed).mp hmem, hmatch⟩
  matchingRule_addEvent _ _ _ := rfl
  matchingRule_claimNonce e a n s := by
    simp only [claimNonce, InMemoryStore.claimNonce]
    split <;> rfl
  agentId_kept _ := rfl
  ownerId_kept _ := rfl
  publicKeyHex_kept _ := rfl
  currentAutonomy_kept _ := rfl
  active_kept _ := rfl
  eventScope_kept _ := ⟨rfl, rfl, rfl, rfl⟩
  ruleId_kept _ := rfl
  ruleScope_kept _ := ⟨rfl, rfl, rfl⟩
  ruleActive_kept _ := rfl
  createdBy_kept _ := rfl

instance : LawfulStore SqlStore where
  view s := ⟨fun i => Dict.get? s.agents i, fun i => Dict.get? s.events i,
    fun i => Dict.get? s.rules i, fun a n => (a, n) ∈ s.nonces⟩
  keptAgent := columnAgent
  keptEvent := columnEvent
  keptRule := columnRule
  view_empty := by
    ext <;> simp [empty, SqlStore.empty, StoreView.empty]
  view_addAgent a s := StoreView.ext (get?_set_eq_update _ _ _) rfl rfl rfl
  view_addEvent e s := StoreView.ext rfl (get?_set_eq_update _ _ _) rfl rfl
  view_addRule r s := StoreView.ext rfl rfl (get?_set_eq_update _ _ _) rfl
  view_claimNonce a n s := by
    constructor
    · simp only [claimNonce, SqlStore.claimNonce]
      by_cases h : (a, n) ∈ s.nonces <;> simp [h]
    · have h := mem_claimed s.nonces a n
      simp only [claimNonce, SqlStore.claimNonce]
      split <;> rename_i hmem
      · simp only [hmem, if_true] at h
        exact StoreView.ext rfl rfl rfl (funext fun b => funext fun m => h b m)
      · simp only [hmem, if_false] at h
        exact StoreView.ext rfl rfl rfl (funext fun b => funext fun m => h b m)
  view_touchAgent _ _ := Or.inl rfl
  view_touchEvent _ _ := Or.inl rfl
  getAgent_eq _ _ := rfl
  getEvent_eq _ _ := rfl
  getRule_eq _ _ := rfl
  mem_rulesFor a w c s r := by
    simp only [rulesFor, SqlStore.rulesFor, List.mem_filter, mem_rules_iff s.nodup s.keyed]
  matchingRule_some e s r h := by
    obtain ⟨hmem, hmatch⟩ := firstMatch_some h
    rw [SqlStore.rulesFor, List.mem_filter] at hmem
    exact ⟨(mem_rules_iff s.nodup s.keyed).mp hmem.1, hmatch⟩
  matchingRule_addEvent _ _ _ := rfl
  matchingRule_claimNonce e a n s := by
    simp only [claimNonce, SqlStore.claimNonce]
    split <;> rfl
  agentId_kept _ := rfl
  ownerId_kept _ := rfl
  publicKeyHex_kept _ := rfl
  currentAutonomy_kept _ := rfl
  active_kept _ := rfl
  eventScope_kept _ := ⟨rfl, rfl, rfl, rfl⟩
  ruleId_kept _ := rfl
  ruleScope_kept _ := ⟨rfl, rfl, rfl⟩
  ruleActive_kept _ := rfl
  createdBy_kept _ := rfl

end EarnedAutonomy
