import EarnedAutonomy.Core.Paths

/-!
# What commands do to the store

`StoreStep` lists every change a command can make to agents, events, rules and
nonces, with what the command has checked before it makes the change.
`storeSteps_serve` says that there are no others: every turn goes from the
store before it to the store after it by such steps, whether the command
returns or raises.  The invariants of the store are proved over these steps.
-/

namespace EarnedAutonomy

open Atomic Prog Calendar

/-! ## Steps -/

/-- A registered agent after an incident in a scope: counted, or lowered to the
approval rung. -/
structure Lowered (workflowId : String) (authorityClass : AuthorityClass)
    (old new : AgentIdentity) : Prop where
  agentId : new.agentId = old.agentId
  ownerId : new.ownerId = old.ownerId
  currentAutonomy : new.currentAutonomy = old.currentAutonomy ∨
    ∃ current, old.autonomyFor workflowId authorityClass = .ok current ∧
      new.currentAutonomy = (old.setAutonomy workflowId authorityClass
        (current.cappedAt .executeWithApproval)).currentAutonomy

/-- The event is stored under the id and the scope of another. -/
structure WorkflowEvent.Same (e e' : WorkflowEvent) : Prop where
  eventId : e'.eventId = e.eventId
  agentId : e'.agentId = e.agentId
  workflowId : e'.workflowId = e.workflowId
  authorityRequested : e'.authorityRequested = e.authorityRequested

section

variable {P : Primitives} {F : Type}

/-- One change of the store by a command. -/
inductive StoreStep (S : Type) [Store S] [LawfulStore S] (cp : ControlPlane P F) :
    Command → StoreView → StoreView → Prop where
  | register {agent : AgentIdentity} {v : StoreView}
      (hkey : cp.config.strictMode = true → present agent.publicKeyHex = true) :
      StoreStep S cp (.registerAgent agent) v (v.setAgent (LawfulStore.keptAgent (S := S) agent))
  | autoRegister {e : WorkflowEvent} {v : StoreView} {now : String}
      (hstrict : cp.config.strictMode = false) (hunknown : v.agents e.agentId = none) :
      StoreStep S cp (.proposeEvent e) v
        (v.setAgent (LawfulStore.keptAgent (S := S) (ControlPlane.autoRegistered e now)))
  | claim {e : WorkflowEvent} {v : StoreView} :
      StoreStep S cp (.proposeEvent e) v (v.addNonce e.agentId e.nonce)
  | storeEvent {e e' : WorkflowEvent} {v : StoreView} (hsame : e.Same e') :
      StoreStep S cp (.proposeEvent e) v (v.setEvent e')
  | approve {rule : DelegationRule} {approverId : String} {role : Option PyStr} {v : StoreView}
      (hduties : requiresSeparationOfDuties rule.authorityClass = true →
        ∀ agent, v.agents rule.agentId = some agent → approverId ≠ agent.ownerId) :
      StoreStep S cp (.approveDelegationRule rule approverId role) v
        (v.setRule (LawfulStore.keptRule (S := S) { rule with createdBy := some approverId }))
  | revoke {ruleId actorId : String} {reason : PyStr} {rule : DelegationRule} {v : StoreView}
      (hinactive : rule.active = false) :
      StoreStep S cp (.revokeDelegationRule ruleId actorId reason) v (v.setRule rule)
  | lower {a w : String} {c : AuthorityClass} {reason : PyStr} {actorId : String}
      {old new : AgentIdentity} {v : StoreView} (hold : v.agents a = some old)
      (hnew : Lowered w c old new) :
      StoreStep S cp (.recordIncident a w c reason actorId) v (v.setAgent new)
  | close {a w : String} {c : AuthorityClass} {reason : PyStr} {actorId : String}
      {rule : DelegationRule} {v : StoreView} (hinactive : rule.active = false) :
      StoreStep S cp (.recordIncident a w c reason actorId) v (v.setRule rule)

/-- The changes of a command, one after the other. -/
def StoreSteps (S : Type) [Store S] [LawfulStore S] (cp : ControlPlane P F) (cmd : Command) :
    StoreView → StoreView → Prop :=
  Relation.ReflTransGen (StoreStep S cp cmd)

/-- What every step of a command keeps, its turn keeps. -/
theorem StoreSteps.invariant {S : Type} [Store S] [LawfulStore S] {cp : ControlPlane P F}
    {cmd : Command} {I : StoreView → Prop} {v v' : StoreView} (h : StoreSteps S cp cmd v v')
    (hstep : ∀ u u', StoreStep S cp cmd u u' → I u → I u') (hv : I v) : I v' := by
  induction h with
  | refl => exact hv
  | tail _ hlast ih => exact hstep _ _ hlast ih

end

/-! ## Keys -/

namespace StoreView

/-- Agents are stored under their ids. -/
def Keyed (v : StoreView) : Prop := ∀ i agent, v.agents i = some agent → agent.agentId = i

theorem keyed_empty : empty.Keyed := fun _ _ h => by cases h

theorem Keyed.setAgent {v : StoreView} (h : v.Keyed) (agent : AgentIdentity) :
    (v.setAgent agent).Keyed := by
  intro i g hg
  rw [agents_setAgent] at hg
  split at hg
  · rename_i hi
    cases hg
    exact hi.symm
  · exact h i g hg

/-- Rules are stored under their ids. -/
def RulesKeyed (v : StoreView) : Prop := ∀ i rule, v.rules i = some rule → rule.ruleId = i

theorem rulesKeyed_empty : empty.RulesKeyed := fun _ _ h => by cases h

theorem RulesKeyed.setRule {v : StoreView} (h : v.RulesKeyed) (rule : DelegationRule) :
    (v.setRule rule).RulesKeyed := by
  intro i r hr
  rw [rules_setRule] at hr
  split at hr
  · rename_i hi
    cases hr
    exact hi.symm
  · exact h i r hr

end StoreView

section

variable {P : Primitives} {F : Type} {S : Type} [Store S] [LawfulStore S]
variable {cp : ControlPlane P F} {cmd : Command} {u u' : StoreView}

theorem StoreStep.keyed (h : StoreStep S cp cmd u u') (hu : u.Keyed) :
    u'.Keyed := by
  cases h with
  | register _ | autoRegister _ _ | lower _ _ => exact hu.setAgent _
  | claim | storeEvent _ | approve _ | revoke _ | close _ => exact hu

theorem StoreStep.rulesKeyed (h : StoreStep S cp cmd u u') (hu : u.RulesKeyed) :
    u'.RulesKeyed := by
  cases h with
  | approve _ | revoke _ | close _ => exact hu.setRule _
  | register _ | autoRegister _ _ | lower _ _ | claim | storeEvent _ => exact hu

end

/-! ## Calls and the store -/

/-- The calls that change the store. -/
def Call.changesStore : Call → Bool
  | .addAgent _ | .touchAgent _ | .addEvent _ | .touchEvent _ | .addRule _ => true
  | .claimNonce _ _ => true
  | _ => false

theorem changesStore_of_plain {c : Call} (h : c.plain = true) : c.changesStore = false := by
  cases c <;> first | rfl | cases h

section

variable {P : Primitives} {F : Type} {cp : ControlPlane P F} {o : Oracle}
variable {S C L : Type} [Store S] [CapabilityStateStore C] [AuditLog L]

theorem store_worldHandler {keys : KeyPair P} {replica : Nat} {c : Call}
    (h : c.changesStore = false) (w : World S C L) :
    (worldHandler o keys replica c w).2.store = w.store := by
  cases c with
  | applyDecision a wf k d =>
    simp only [worldHandler]
    split <;> rfl
  | addAgent _ | touchAgent _ | addEvent _ | touchEvent _ | addRule _ | claimNonce _ _ => cases h
  | _ => rfl

/-- A program without a call that changes the store leaves it. -/
theorem store_run {keys : KeyPair P} {replica : Nat} {α : Type} {p : CpProg α}
    (hp : p.Uses fun c => c.changesStore = false) (w : World S C L) :
    (p.run (worldHandler o keys replica) w).2.store = w.store :=
  run_frame _ World.store (fun _ hc w => store_worldHandler hc w) hp w

variable [LawfulStore S]

open Store LawfulStore ControlPlane

variable {keys : KeyPair P} {replica : Nat} {cmd : Command} {v : StoreView}

/-- The steps of a turn so far. -/
private abbrev Reached (cp : ControlPlane P F) (cmd : Command) (v : StoreView)
    (w : World S C L) : Prop :=
  StoreSteps S cp cmd v (view w.store)

variable (cp o S C L keys replica cmd) in
/-- In every state the call makes one step of the command or none. -/
private def Stepwise (c : Call) : Prop :=
  ∀ w : World S C L,
    StoreStep S cp cmd (view w.store) (view (worldHandler o keys replica c w).2.store) ∨
      view (worldHandler o keys replica c w).2.store = view w.store

private theorem stepwise_of_not_changesStore {c : Call} (h : c.changesStore = false) :
    Stepwise cp o S C L keys replica cmd c :=
  fun w => Or.inr (congrArg view (store_worldHandler h w))

private theorem Stepwise.call {c : Call} {w : World S C L}
    (hc : Stepwise cp o S C L keys replica cmd c) (h : Reached cp cmd v w) :
    Reached cp cmd v (worldHandler o keys replica c w).2 := by
  rcases hc w with hc | hc
  · exact Relation.ReflTransGen.tail h hc
  · rw [Reached, hc]
    exact h

private theorem Reached.keeps {w : World S C L} (h : Reached cp cmd v w) {α : Type}
    {p : CpProg α} (hp : p.Uses (Stepwise cp o S C L keys replica cmd)) :
    p.Ensures (worldHandler o keys replica) w fun _ w' => Reached cp cmd v w' :=
  ensures_of_uses hp (fun _ hc _ h => hc.call h) h

/-! ## The steps of each command -/

private theorem ensures_proposer {e : WorkflowEvent} {w : World S C L}
    (h : Reached cp (.proposeEvent e) v w) :
    (cp.proposer e).Ensures (worldHandler o keys replica) w
      fun _ w' => Reached cp (.proposeEvent e) v w' := by
  unfold proposer
  rw [perform_bind, ensures_call]
  simp only [worldHandler]
  cases hfound : getAgent e.agentId w.store with
  | some agent => exact h
  | none =>
    dsimp only
    split
    · exact h
    · rename_i hstrict
      rw [getAgent_eq] at hfound
      rw [perform_bind, ensures_call, perform_bind, ensures_call]
      refine Relation.ReflTransGen.tail h ?_
      simp only [worldHandler, onCap, pure_eq_done, run_done, view_addAgent]
      exact .autoRegister (by simpa using hstrict) hfound

private theorem ensures_authenticate {e : WorkflowEvent} {w : World S C L}
    (h : Reached cp (.proposeEvent e) v w) :
    (cp.authenticate e).Ensures (worldHandler o keys replica) w
      fun _ w' => Reached cp (.proposeEvent e) v w' := by
  refine ensures_bind_of_keeps (ensures_proposer h) fun agent w' h' => h'.keeps ?_
  split
  · trivial
  · split
    · split
      · trivial
      · exact uses_bind (uses_ofExcept _) fun signed => by cases signed <;> trivial
    · trivial

private theorem plain_stepwise (c : Call) (h : c.plain = true) (_ : c.recordsTrust = false) :
    Stepwise cp o S C L keys replica cmd c :=
  stepwise_of_not_changesStore (changesStore_of_plain h)

private theorem ensures_proposeEvent {e : WorkflowEvent} {w : World S C L}
    (h : Reached cp (.proposeEvent e) v w) :
    (cp.proposeEvent e).Ensures (worldHandler o keys replica) w
      fun _ w' => Reached cp (.proposeEvent e) v w' := by
  refine ensures_bind_of_keeps (ensures_authenticate h) fun agent w' h' => h'.keeps ?_
  refine uses_bind (uses_assess plain_stepwise (fun w => ?_) (fun w => ?_) fun w => ?_)
    fun p => uses_conclude plain_stepwise fun t entry => ?_
  · left
    simp only [worldHandler, (view_claimNonce _ _ _).2]
    exact .claim
  · left
    obtain ⟨hid, hagent, hworkflow, hauthority⟩ := eventScope_kept (S := S) e
    simp only [worldHandler, view_addEvent]
    exact .storeEvent ⟨hid, hagent, hworkflow, hauthority⟩
  · rcases view_touchEvent (withApprovedWorkflows e agent) w.store with hsame | hset
    · exact Or.inr hsame
    · left
      simp only [worldHandler, hset]
      exact .storeEvent ⟨rfl, rfl, rfl, rfl⟩
  · exact stepwise_of_not_changesStore rfl

private theorem ensures_approveDelegationRule {rule : DelegationRule} {approverId : String}
    {role : Option PyStr} {w : World S C L}
    (h : Reached cp (.approveDelegationRule rule approverId role) v w) :
    (approveDelegationRule rule approverId role).Ensures (worldHandler o keys replica) w
      fun _ w' => Reached cp (.approveDelegationRule rule approverId role) v w' := by
  unfold approveDelegationRule
  rw [perform_bind, ensures_call]
  dsimp only
  split
  · exact h
  · split
    · exact h
    · rename_i hduties
      rw [perform_bind, ensures_call]
      refine Reached.keeps (Relation.ReflTransGen.tail h ?_) ?_
      · simp only [worldHandler, view_addRule]
        refine .approve fun hsod agent hagent happrover => hduties ?_
        simp [worldHandler, getAgent_eq, hagent, hsod, happrover]
      · exact uses_bind (uses_ledgerAppend (plain_stepwise _ rfl rfl)) fun _ => trivial

private theorem stepwise_close {a w : String} {c : AuthorityClass} {reason : PyStr}
    {actorId : String} {r : DelegationRule} (h : r.active = false) :
    Stepwise cp o S C L keys replica (.recordIncident a w c reason actorId) (.addRule r) := by
  intro w
  simp only [worldHandler, view_addRule]
  exact Or.inl (.close ((ruleActive_kept r).trans h))

private theorem stepwise_revoke {ruleId actorId : String} {reason : PyStr} {r : DelegationRule}
    (h : r.active = false) :
    Stepwise cp o S C L keys replica (.revokeDelegationRule ruleId actorId reason)
      (.addRule r) := by
  intro w
  simp only [worldHandler, view_addRule]
  exact Or.inl (.revoke ((ruleActive_kept r).trans h))

private theorem ensures_downgrade {a w : String} {c : AuthorityClass} {reason : PyStr}
    {actorId : String} {s : World S C L}
    (h : Reached cp (.recordIncident a w c reason actorId) v s) :
    (downgrade a w c reason).Ensures (worldHandler o keys replica) s
      fun _ s' => Reached cp (.recordIncident a w c reason actorId) v s' := by
  unfold downgrade
  rw [perform_bind, ensures_call]
  simp only [worldHandler]
  cases hfound : getAgent a s.store with
  | none => exact h
  | some agent =>
    dsimp only
    rw [perform_bind, ensures_call]
    simp only [worldHandler]
    rw [getAgent_eq] at hfound
    have hcounted : Lowered w c agent (withIncident agent) := ⟨rfl, rfl, Or.inl rfl⟩
    -- whether or not the count shows in the store, it holds the agent with its level
    obtain ⟨old, hold, hreached, hid, howner, hlevels⟩ : ∃ old,
        (view (touchAgent (withIncident agent) s.store)).agents a = some old ∧
        StoreSteps S cp (.recordIncident a w c reason actorId) v
          (view (touchAgent (withIncident agent) s.store)) ∧
        old.agentId = agent.agentId ∧ old.ownerId = agent.ownerId ∧
        old.currentAutonomy = agent.currentAutonomy := by
      rcases view_touchAgent (withIncident agent) s.store with hsame | hset
      · rw [hsame]
        exact ⟨agent, hfound, h, rfl, rfl, rfl⟩
      · have hstep := Relation.ReflTransGen.tail h (.lower hfound hcounted)
        rw [hset]
        by_cases hkey : a = agent.agentId
        · exact ⟨withIncident agent, by simp [withIncident, ← hkey], hstep, rfl, rfl, rfl⟩
        · refine ⟨agent, ?_, hstep, rfl, rfl, rfl⟩
          simpa [withIncident, hkey] using hfound
    rw [ensures_bind, ensures_ofExcept]
    cases hcurrent : (withIncident agent).autonomyFor w c with
    | error err => exact hreached
    | ok current =>
      dsimp only
      rw [perform_bind, ensures_call]
      refine Reached.keeps (Relation.ReflTransGen.tail hreached ?_) ?_
      · simp only [worldHandler, view_addAgent]
        refine .lower hold ⟨?_, ?_, Or.inr ⟨current, ?_, ?_⟩⟩
        · rw [agentId_kept, hid]
          rfl
        · rw [ownerId_kept, howner]
          rfl
        · rw [← hcurrent]
          simp only [AgentIdentity.autonomyFor, hlevels]
          rfl
        · rw [currentAutonomy_kept]
          simp only [AgentIdentity.setAutonomy, hlevels]
          rfl
      · refine uses_call_bind (plain_stepwise _ rfl rfl) fun rules => ?_
        exact uses_deactivateRules (fun r why => stepwise_close rfl) rules

private theorem ensures_recordIncident [Arithmetic F] {a w : String} {c : AuthorityClass}
    {reason : PyStr} {actorId : String} {s : World S C L}
    (h : Reached cp (.recordIncident a w c reason actorId) v s) :
    (recordIncident F a w c reason actorId).Ensures (worldHandler o keys replica) s
      fun _ s' => Reached cp (.recordIncident a w c reason actorId) v s' := by
  unfold recordIncident
  rw [perform_bind, ensures_call, perform_bind, ensures_call]
  refine ensures_bind_of_keeps (ensures_downgrade h) fun rules s' h' => h'.keeps ?_
  refine uses_bind (uses_revokeScope (stepwise_of_not_changesStore rfl)) fun _ => ?_
  exact uses_bind (uses_ledgerAppend (stepwise_of_not_changesStore rfl)) fun _ => trivial

variable [Arithmetic F]

/-- A turn changes the store by steps of its command, and in no other way. -/
theorem storeSteps_serve (w : World S C L) (r : Nat × Command) :
    StoreSteps S cp r.2 (view w.store) (view ((cp.system o).serve w r).after.store) := by
  obtain ⟨replica, cmd⟩ := r
  -- a command that cannot change the store takes no step
  have idle : (cp.body cmd).Uses (fun c => c.changesStore = false) →
      StoreSteps S cp cmd (view w.store)
        (view ((cp.system o).serve w (replica, cmd)).after.store) := by
    intro huses
    have hstore : ((cp.system o).serve w (replica, cmd)).after.store = w.store :=
      store_run huses w
    rw [hstore]
    exact Relation.ReflTransGen.refl
  have start : Reached cp cmd (view w.store) w := Relation.ReflTransGen.refl
  have finish {α : Type} {p : CpProg α} {f : α → Answer F}
      (hp : p.Ensures (worldHandler o cp.ledgerKeys replica) w
        fun _ w' => Reached cp cmd (view w.store) w') :
      (p >>= fun a => .done (f a)).Ensures (worldHandler o cp.ledgerKeys replica) w
        fun _ w' => Reached cp cmd (view w.store) w' :=
    ensures_bind_of_keeps hp fun _ _ h => h
  cases cmd with
  | registerAgent agent =>
    refine finish ?_
    unfold registerAgent
    split
    · exact start
    · rename_i hkey
      rw [perform_bind, ensures_call]
      refine Reached.keeps (Relation.ReflTransGen.tail start ?_) ?_
      · simp only [worldHandler, view_addAgent]
        exact .register (by simpa using hkey)
      · exact uses_bind (uses_ledgerAppend (plain_stepwise _ rfl rfl)) fun _ => trivial
  | proposeEvent e => exact finish (ensures_proposeEvent start)
  | approveDelegationRule rule approverId role =>
    exact finish (ensures_approveDelegationRule start)
  | revokeDelegationRule ruleId actorId reason =>
    refine finish (start.keeps ?_)
    exact uses_revokeDelegationRule plain_stepwise (fun r => stepwise_revoke rfl)
      fun _ _ _ => stepwise_of_not_changesStore rfl
  | recordIncident a wf c reason actorId => exact finish (ensures_recordIncident start)
  | submitDecision d =>
    exact idle (uses_bind (uses_submitDecision (fun _ h _ => changesStore_of_plain h)
      (fun _ _ _ => rfl) fun _ _ => rfl) fun _ => trivial)
  | recommendFor a wf c =>
    exact idle (uses_bind (uses_recommendFor (fun _ h _ => changesStore_of_plain h) _ _ _)
      fun _ => trivial)
  | execute token action outcome =>
    exact idle (uses_bind (uses_execute (fun _ h _ => changesStore_of_plain h) (fun _ _ => rfl)
      fun _ => rfl) fun _ => trivial)
  | verifyForAction t action =>
    exact idle (uses_bind (uses_verify (fun _ h _ => changesStore_of_plain h) rfl)
      fun _ => trivial)
  | revokeToken tokenId =>
    exact idle (uses_bind (uses_liftCap ((uses_perform _).mpr rfl)) fun _ => trivial)
  | purgeExpired =>
    exact idle (uses_bind (uses_liftCap (CapabilityService.uses_purgeExpired
      (A := fun c => (Call.cap c).changesStore = false) rfl (fun _ => rfl) _)) fun _ => trivial)

theorem storeSteps_of_serve {x : Turn PyError (Nat × Command) Res (Answer F) (World S C L)}
    (h : x = (cp.system o).serve x.before x.request) :
    StoreSteps S cp x.request.2 (view x.before.store) (view x.after.store) := by
  rw [h]
  exact storeSteps_serve _ _

/-- In every reachable state agents and rules are stored under their ids. -/
theorem keyed_of_runs {turns : List (Turn PyError (Nat × Command) Res (Answer F) (World S C L))}
    {w : World S C L} (h : (cp.system o).Runs (World.initial S C L) turns w) :
    (view w.store).Keyed ∧ (view w.store).RulesKeyed := by
  refine h.invariant (I := fun w => (view w.store).Keyed ∧ (view w.store).RulesKeyed) ?_
    fun x _ hserve hbefore => ?_
  · have hempty : view (World.initial S C L).store = .empty := view_empty
    rw [hempty]
    exact ⟨StoreView.keyed_empty, StoreView.rulesKeyed_empty⟩
  · exact (storeSteps_of_serve hserve).invariant
      (I := fun u => u.Keyed ∧ u.RulesKeyed)
      (fun _ _ hstep hu => ⟨hstep.keyed hu.1, hstep.rulesKeyed hu.2⟩) hbefore

end

end EarnedAutonomy
