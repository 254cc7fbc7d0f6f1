import EarnedAutonomy.Core.Capability
import EarnedAutonomy.Core.Ledger
import EarnedAutonomy.Core.Policy
import EarnedAutonomy.Core.Recommendations
import EarnedAutonomy.Storage.Store

/-!
# The calls of a control plane

Everything a control plane and its enforcement point touch, as one state, and
every access to it as one atomic call.

* `World` is the state: the store, the capability state and the ledger, which
  replicas can share, and the delegation memory and the metrics of each replica.
* `Call` is an access.  The calls of the capability service are embedded as
  `Call.cap`, so its programs run here as they run alone.
* `worldHandler` says what each call does on a replica.

`capView` and `onCap` relate the state to the one of the capability service.
-/

namespace EarnedAutonomy

open Atomic Calendar OrderedDict

/-! ## State -/

/-- `GovernanceMetrics`, without the counter of the enforcement point, which
nothing counts on. -/
structure GovernanceMetrics where
  decisions : Dict String Nat := []
  incidents : Nat := 0
  recommendations : Nat := 0

/-- `Counter[key] += 1` -/
def GovernanceMetrics.recordDecision (m : GovernanceMetrics) (status : String) :
    GovernanceMetrics :=
  { m with decisions := Dict.set m.decisions status ((Dict.get? m.decisions status).getD 0 + 1) }

/-- All state that the calls of a control plane reach. -/
structure World (S C L : Type) where
  store : S
  capability : C
  ledger : L
  memories : Nat → DelegationMemory
  metrics : Nat → GovernanceMetrics
  reads : Nat
  draws : Nat

/-- Nothing stored, and neither the clock nor the generator was asked. -/
def World.initial (S C L : Type) [Store S] [CapabilityStateStore C] [AuditLog L] :
    World S C L where
  store := Store.empty
  capability := CapabilityStateStore.empty
  ledger := AuditLog.empty
  memories _ := {}
  metrics _ := {}
  reads := 0
  draws := 0

/-! ## Calls -/

/-- A downstream action, with the token and the scope it runs under. -/
structure Invocation where
  token : CapabilityToken
  agentId : String
  workflowId : String
  authorityClass : AuthorityClass

/-- One atomic access, or a downstream action that runs. -/
inductive Call where
  | getAgent (agentId : String)
  | addAgent (agent : AgentIdentity)
  | touchAgent (agent : AgentIdentity)
  | getEvent (eventId : String)
  | addEvent (event : WorkflowEvent)
  | touchEvent (event : WorkflowEvent)
  | getRule (ruleId : String)
  | addRule (rule : DelegationRule)
  | matchingRule (event : WorkflowEvent)
  | rulesFor (agentId workflowId authorityValue : String)
  | claimNonce (agentId nonce : String)
  | cap (call : CapCall)
  | applyDecision (agentId workflowId : String) (authorityClass : AuthorityClass)
      (decision : ApprovalDecision)
  | noteIncident (agentId workflowId : String) (authorityClass : AuthorityClass)
  | getStats (agentId workflowId : String) (authorityClass : AuthorityClass)
  | recordDecision (status : String)
  | countIncident
  | countRecommendation
  | append (eventType : String) (payload : PyVal) (actorId : Option String)
  | invoke (invocation : Invocation)

/-- The type of each answer. -/
abbrev Res : Call → Type
  | .getAgent _ => Option AgentIdentity
  | .addAgent _ => Unit
  | .touchAgent _ => Unit
  | .getEvent _ => Option WorkflowEvent
  | .addEvent _ => Unit
  | .touchEvent _ => Unit
  | .getRule _ => Option DelegationRule
  | .addRule _ => Unit
  | .matchingRule _ => Except PyError (Option DelegationRule)
  | .rulesFor _ _ _ => List DelegationRule
  | .claimNonce _ _ => Bool
  | .cap c => CapRes c
  | .applyDecision _ _ _ _ => Except PyError TrustStats
  | .noteIncident _ _ _ => TrustStats
  | .getStats _ _ _ => TrustStats
  | .recordDecision _ => Unit
  | .countIncident => Unit
  | .countRecommendation => Unit
  | .append _ _ _ => Except PyError AuditRecord
  | .invoke _ => Unit

section

variable {S C L : Type}

/-- The part of the state the capability service works on. -/
def capView (w : World S C L) : CapWorld C := ⟨w.capability, w.reads, w.draws⟩

/-- Put the part of the capability service back. -/
def onCap (v : CapWorld C) (w : World S C L) : World S C L :=
  { w with capability := v.store, reads := v.reads, draws := v.draws }

@[simp] theorem capView_onCap (v : CapWorld C) (w : World S C L) : capView (onCap v w) = v := rfl

@[simp] theorem onCap_onCap (v v' : CapWorld C) (w : World S C L) :
    onCap v (onCap v' w) = onCap v w := rfl

@[simp] theorem onCap_capView (w : World S C L) : onCap (capView w) w = w := rfl

/-- 1 if a `get` of the statistics has to create the entry. -/
def creates (m : DelegationMemory) (agentId workflowId : String)
    (authorityClass : AuthorityClass) : Nat :=
  if (m.find? agentId workflowId authorityClass).isSome then 0 else 1

/-- Store the delegation memory of a replica. -/
def World.setMemory (w : World S C L) (replica : Nat) (m : DelegationMemory) : World S C L :=
  { w with memories := Function.update w.memories replica m }

def World.setMetrics (w : World S C L) (replica : Nat) (m : GovernanceMetrics) : World S C L :=
  { w with metrics := Function.update w.metrics replica m }

variable [Store S] [CapabilityStateStore C] [AuditLog L]

/-- What each call does on a replica. -/
def worldHandler {P : Primitives} (o : Oracle) (ledgerKeys : KeyPair P) (replica : Nat) :
    Handler Res (World S C L)
  | .getAgent agentId, w => (Store.getAgent agentId w.store, w)
  | .addAgent agent, w => ((), { w with store := Store.addAgent agent w.store })
  | .touchAgent agent, w => ((), { w with store := Store.touchAgent agent w.store })
  | .getEvent eventId, w => (Store.getEvent eventId w.store, w)
  | .addEvent event, w => ((), { w with store := Store.addEvent event w.store })
  | .touchEvent event, w => ((), { w with store := Store.touchEvent event w.store })
  | .getRule ruleId, w => (Store.getRule ruleId w.store, w)
  | .addRule rule, w => ((), { w with store := Store.addRule rule w.store })
  | .matchingRule event, w => (Store.matchingRule event w.store, w)
  | .rulesFor a wf c, w => (Store.rulesFor a wf c w.store, w)
  | .claimNonce agentId nonce, w =>
      ((Store.claimNonce agentId nonce w.store).1,
        { w with store := (Store.claimNonce agentId nonce w.store).2 })
  | .cap c, w => ((capHandler o c (capView w)).1, onCap (capHandler o c (capView w)).2 w)
  | .applyDecision a wf c decision, w =>
      let m := w.memories replica
      let reads := w.reads + creates m a wf c
      match m.applyDecision a wf c decision (isoformat (o.time w.reads))
          (isoformat (o.time reads)) with
      | (.ok s, m') => (.ok s, { w.setMemory replica m' with reads := reads + 1 })
      | (.error e, m') => (.error e, { w.setMemory replica m' with reads := reads })
  | .noteIncident a wf c, w =>
      let m := w.memories replica
      let reads := w.reads + creates m a wf c
      let (s, m') := m.recordIncident a wf c (isoformat (o.time w.reads))
        (isoformat (o.time reads))
      (s, { w.setMemory replica m' with reads := reads + 1 })
  | .getStats a wf c, w =>
      let m := w.memories replica
      let (s, m') := m.get a wf c (isoformat (o.time w.reads))
      (s, { w.setMemory replica m' with reads := w.reads + creates m a wf c })
  | .recordDecision status, w =>
      ((), w.setMetrics replica ((w.metrics replica).recordDecision status))
  | .countIncident, w =>
      ((), w.setMetrics replica
        { w.metrics replica with incidents := (w.metrics replica).incidents + 1 })
  | .countRecommendation, w =>
      ((), w.setMetrics replica
        { w.metrics replica with recommendations := (w.metrics replica).recommendations + 1 })
  | .append eventType payload actorId, w =>
      let (r, l) := AuditLog.append ledgerKeys
        ⟨eventType, payload, actorId, newId "aud" (o.uuid w.draws), isoformat (o.time w.reads)⟩
        w.ledger
      (r, { w with ledger := l, reads := w.reads + 1, draws := w.draws + 1 })
  | .invoke _, w => ((), w)

end

/-- A program of a control plane or an enforcement point. -/
abbrev CpProg (α : Type) := Prog PyError Res α

/-- One call, as a program. -/
abbrev call (c : Call) : CpProg (Res c) := Prog.perform c

/-- A program of the capability service. -/
def liftCap {α : Type} (p : CapProg α) : CpProg α := p.embed Call.cap fun _ r => r

/-- `ledger.append` -/
def ledgerAppend (eventType : String) (payload : PyVal) (actorId : Option String) :
    CpProg AuditRecord := do
  Prog.ofExcept (← call (.append eventType payload actorId))

/-- A program of the capability service works on its part of the state, as it
works alone. -/
theorem run_liftCap {S C L : Type} [Store S] [CapabilityStateStore C] [AuditLog L]
    {P : Primitives} (o : Oracle) (keys : KeyPair P) (replica : Nat) {α : Type} (p : CapProg α)
    (w : World S C L) :
    (liftCap p).run (worldHandler o keys replica) w =
      ((p.run (capHandler o) (capView w)).1, onCap (p.run (capHandler o) (capView w)).2 w) :=
  Prog.run_embed (capHandler o) (worldHandler o keys replica) capView onCap capView_onCap
    onCap_onCap onCap_capView (fun _ _ => rfl) (fun _ _ => rfl) p w

end EarnedAutonomy
