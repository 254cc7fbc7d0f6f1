import EarnedAutonomy.Core.ExecutionPolicy
import EarnedAutonomy.Core.Mediation

/-!
# Guards that look at what the server knows

`propose_event` puts the agent's workflows into the metadata of the event, where the
guard `outside_known_workflow` reads them.  It does so with `setdefault`, so an
entry that the agent has signed itself stays.

* `triggeredGuards_evaluate`, `mem_evaluateGuards_iff`: which guards a decision reports.
* `server_guard_iff`: the guard is reported as the registered workflows have it
  exactly if the agent's own entry, where there is one, comes to the same.
  `agent_silences_guard` is an event that names its own workflow.
-/

namespace EarnedAutonomy

open Atomic Service Prog Calendar OrderedDict Store LawfulStore ControlPlane

/-! ## Reported guards -/

/-- A decision reports the guards of the rule that grants the level. -/
theorem triggeredGuards_evaluate {engine : PolicyEngine} {e : WorkflowEvent}
    {current : AutonomyLevel} {consequences : List ConsequenceClass} {risk : RiskLevel}
    {rule : DelegationRule} {d : PolicyDecision} (hbounds : engine.bounds e = false)
    (habove : current.value < rule.autonomyLevel.value)
    (h : engine.evaluate e current consequences risk (some rule) = .ok d) :
    evaluateGuards rule.requiresApprovalIf e = .ok d.triggeredGuards := by
  unfold PolicyEngine.evaluate at h
  simp only [bounds_eq_false_iff.mp hbounds, grantingRule, habove, if_true, bind_eq_ok_iff] at h
  obtain ⟨triggered, htriggered, h⟩ := h
  rw [htriggered]
  cases triggered with
  | nil =>
    obtain rfl := Except.ok.inj h
    unfold statusForLevel
    dsimp only
    repeat' split
    all_goals rfl
  | cons name rest =>
    obtain rfl := Except.ok.inj h
    rfl

/-- The name that stands for an unknown guard is another one. -/
theorem mem_firedBy_iff {e : WorkflowEvent} {name : String} {fired : List String}
    (h : firedBy e name = .ok fired) :
    "outside_known_workflow" ∈ fired ↔
      name = "outside_known_workflow" ∧ outsideKnownWorkflow e = .ok true := by
  by_cases hname : name = "outside_known_workflow"
  · subst hname
    have hguard : guard? "outside_known_workflow" = some outsideKnownWorkflow := by
      simp [guard?]
    unfold firedBy at h
    rw [hguard] at h
    cases hfound : outsideKnownWorkflow e with
    | error err => simp [hfound, Except.map] at h
    | ok found =>
      simp only [hfound, Except.map, Except.ok.injEq] at h
      subst h
      cases found <;> simp
  · unfold firedBy at h
    cases hguard : guard? name with
    | none =>
      have hcolon : "outside_known_workflow" ≠ name ++ ":unknown_guard_fail_closed" := by
        intro heq
        have hmem : ':' ∈ "outside_known_workflow".toList := by
          rw [heq, String.toList_append]
          exact List.mem_append_right _ (by decide)
        revert hmem
        decide
      rw [hguard] at h
      cases h
      simp [hname, hcolon]
    | some fn =>
      rw [hguard] at h
      cases hfound : fn e with
      | error err => simp [hfound, Except.map] at h
      | ok found =>
        simp only [hfound, Except.map, Except.ok.injEq] at h
        subst h
        cases found <;> simp [hname, Ne.symm hname]

/-- The guard is among those that fired if it is asked for and its test is true. -/
theorem mem_evaluateGuards_iff {names fired : List String} {e : WorkflowEvent}
    (h : evaluateGuards names e = .ok fired) :
    "outside_known_workflow" ∈ fired ↔
      "outside_known_workflow" ∈ names ∧ outsideKnownWorkflow e = .ok true := by
  induction names generalizing fired with
  | nil =>
    cases h
    simp
  | cons name rest ih =>
    simp only [evaluateGuards_cons, bind_eq_ok_iff] at h
    obtain ⟨first, hfirst, others, hothers, hfired⟩ := h
    obtain rfl := Except.ok.inj hfired
    rw [List.mem_append, mem_firedBy_iff hfirst, ih hothers, List.mem_cons, or_and_right,
      eq_comm]

/-! ## What the guard reads -/

/-- The agent has registered workflows, and the event belongs to none of them. -/
def Outside (agent : AgentIdentity) (e : WorkflowEvent) : Prop :=
  agent.approvedWorkflows ≠ [] ∧ e.workflowId ∉ agent.approvedWorkflows

/-- A list of workflows, searched by the guard, does not have the one of the event. -/
def NotAmong (approved : PyVal) (e : WorkflowEvent) : Prop :=
  approved.truthy = true ∧ approved.containsText e.workflowId = .ok false

/-- Where the agent has signed a list of workflows of its own, the guard finds in it
what it would find in the registered one. -/
def Unsilenced (agent : AgentIdentity) (e : WorkflowEvent) : Prop :=
  ∀ own, Dict.get? e.metadata "_approved_workflows" = some own →
    (NotAmong own e ↔ Outside agent e)

theorem outsideKnownWorkflow_iff (e : WorkflowEvent) :
    outsideKnownWorkflow e = .ok true ↔
      NotAmong ((Dict.get? e.metadata "_approved_workflows").getD (.list [])) e := by
  unfold outsideKnownWorkflow NotAmong
  generalize (Dict.get? e.metadata "_approved_workflows").getD (.list []) = approved
  cases htruthy : approved.truthy with
  | false => simp [pure, Except.pure, htruthy]
  | true =>
    cases hfound : approved.containsText e.workflowId with
    | error err => simp [hfound, htruthy, Bind.bind, Except.bind]
    | ok found => simp [hfound, htruthy, Bind.bind, Except.bind, pure, Except.pure]

/-- The registered list is searched as the list that it is. -/
theorem notAmong_registered (agent : AgentIdentity) (e : WorkflowEvent) :
    NotAmong (textsToVal agent.approvedWorkflows) e ↔ Outside agent e := by
  have hfound : PyVal.isIn (.str e.workflowId) (agent.approvedWorkflows.map PyVal.text) =
      decide (e.workflowId ∈ agent.approvedWorkflows) := by
    unfold PyVal.isIn
    rw [List.any_map, Bool.eq_iff_iff, List.any_eq_true]
    simp [PyVal.text, PyVal.identical, PyVal.eq]
  unfold NotAmong Outside textsToVal
  simp only [PyVal.truthy, PyVal.containsText, hfound]
  simp

/-- What the guard finds in a proposal: the agent's own list, where it signed one. -/
theorem outsideKnownWorkflow_proposed (e : WorkflowEvent) (agent : AgentIdentity) :
    (outsideKnownWorkflow (ControlPlane.withApprovedWorkflows e agent) = .ok true ↔
      Outside agent e) ↔ Unsilenced agent e := by
  rw [outsideKnownWorkflow_iff, ControlPlane.withApprovedWorkflows]
  simp only [Dict.get?_setdefault, if_true, Option.getD_some]
  unfold Unsilenced
  cases hown : Dict.get? e.metadata "_approved_workflows" with
  | none =>
    refine iff_of_true ?_ fun own hsome => by cases hsome
    exact notAmong_registered agent e
  | some own => simp [NotAmong, Outside]

/-! ## What a proposal reports -/

/-- The guard is on the answer. -/
def Reports (p : ControlPlane.Packet) : Prop :=
  "outside_known_workflow" ∈ p.decision.triggeredGuards

/-- The event of a registered agent is matched by a rule above its standing level that
lists the guard, and no boundary rule applies. -/
structure GuardedBy {P : Primitives} {F S : Type} [Store S] (cp : ControlPlane P F) (s : S)
    (e : WorkflowEvent) (agent : AgentIdentity) (rule : DelegationRule) : Prop where
  registered : getAgent e.agentId s = some agent
  matched : matchingRule e s = .ok (some rule)
  above : ∀ current, agent.autonomyFor e.workflowId e.authorityRequested = .ok current →
    current.value < rule.autonomyLevel.value
  listed : "outside_known_workflow" ∈ rule.requiresApprovalIf
  unbounded : cp.policyEngine.bounds (withApprovedWorkflows e agent) = false

section

variable {P : Primitives} {F : Type} [Arithmetic F] {cp : ControlPlane P F} {o : Oracle}
variable {S C L : Type} [Store S] [LawfulStore S] [CapabilityStateStore C] [AuditLog L]
variable {w : World S C L} {replica : Nat} {e : WorkflowEvent} {agent : AgentIdentity}
variable {rule : DelegationRule} {p : ControlPlane.Packet}

/-- An answer reports the guard exactly if the agent's list or its own has it so. -/
theorem reports_iff (hguarded : GuardedBy cp w.store e agent rule)
    (hacc : Accepted ((cp.system o).serve w (replica, .proposeEvent e)) e p) :
    Reports p ↔ outsideKnownWorkflow (withApprovedWorkflows e agent) = .ok true := by
  have hp' := hacc.follows ((cp.system o).follows_serve w (replica, .proposeEvent e))
  have hanswers := (cp.system o).answers_serve w (replica, .proposeEvent e)
  have hknown : getAgent e.agentId w.store ≠ none := by
    rw [hguarded.registered]
    simp
  have hfinds := finds_of_proposal hp' hanswers (Or.inr hknown)
  obtain ⟨_, _, _, _, hassessed, _, _⟩ := follows_proposeEvent_done hp'
  have hagent : agent = p.agent := by
    have := hguarded.registered.symm.trans hfinds.known
    simpa using this
  have hrule : p.matchingRule = some rule := by
    have := hfinds.rule.symm.trans hguarded.matched
    simpa using this
  subst hagent
  obtain ⟨consequences, risk, heval⟩ := hassessed.decision
  rw [hassessed.event, hrule] at heval
  have hguards := triggeredGuards_evaluate hguarded.unbounded
    (hguarded.above _ hassessed.level) heval
  rw [Reports, mem_evaluateGuards_iff hguards]
  exact and_iff_right hguarded.listed

/-- Two proposals that differ in their metadata, and so in their signature, and are
matched by one rule: both report the guard as the registered workflows have it, and
report it alike, exactly if neither has signed a list of workflows that is searched to
another end. -/
theorem server_guard_iff (hguarded : GuardedBy cp w.store e agent rule)
    (hacc : Accepted ((cp.system o).serve w (replica, .proposeEvent e)) e p)
    {metadata : Mapping} {signature : Option String} {e' : WorkflowEvent}
    {p' : ControlPlane.Packet}
    (he' : e' = { e with metadata := metadata, signature := signature })
    (hguarded' : GuardedBy cp w.store e' agent rule)
    (hacc' : Accepted ((cp.system o).serve w (replica, .proposeEvent e')) e' p') :
    ((Reports p ↔ Outside agent e) ∧ (Reports p' ↔ Outside agent e') ∧
        (Reports p ↔ Reports p')) ↔
      Unsilenced agent e ∧ Unsilenced agent e' := by
  have hsame : Outside agent e' ↔ Outside agent e := by
    rw [he']
    exact Iff.rfl
  rw [← outsideKnownWorkflow_proposed, ← outsideKnownWorkflow_proposed,
    ← reports_iff hguarded hacc, ← reports_iff hguarded' hacc']
  constructor
  · intro ⟨hreports, hreports', _⟩
    exact ⟨hreports, hreports'⟩
  · intro ⟨hreports, hreports'⟩
    exact ⟨hreports, hreports', hreports.trans (hsame.symm.trans hreports'.symm)⟩

end

/-! ### An agent that names its own workflow -/

/-- A rule for payroll, outside the workflow that the agent has registered. -/
def payrollRule : DelegationRule :=
  { demoRule .modifyInternalRecord .executeWithSampling with
    workflowId := "payroll"
    requiresApprovalIf := ["outside_known_workflow"] }

def payrollEvent : WorkflowEvent := { demoEvent true with workflowId := "payroll" }

/-- The agent lists the workflow itself. -/
def silencingEvent : WorkflowEvent :=
  { payrollEvent with metadata := [("_approved_workflows", textsToVal ["payroll"])] }

def payrollWorld : SqlWorld :=
  demoSystem.final (World.initial _ _ _) [(0, .registerAgent demoAgent),
    (0, .approveDelegationRule payrollRule "approver" none)]

/-- The rule as it comes back from the database. -/
theorem guardedBy_payrollRule {e : WorkflowEvent}
    (hrule : matchingRule e payrollWorld.store =
      .ok (some (columnRule { payrollRule with createdBy := some "approver" })))
    (hagent : e.agentId = "agent") (hauthority : e.authorityRequested = .modifyInternalRecord) :
    GuardedBy demoPlane payrollWorld.store e demoAgent
      (columnRule { payrollRule with createdBy := some "approver" }) where
  registered := by
    rw [hagent]
    rfl
  matched := hrule
  above current hcurrent := by
    have hbottom : demoAgent.autonomyFor e.workflowId e.authorityRequested = .ok .observeOnly := rfl
    rw [hbottom] at hcurrent
    cases hcurrent
    decide
  listed := by decide
  unbounded := by
    simp [PolicyEngine.bounds, demoPlane, defaultBoundaryRules, BoundaryRule.matchesEvent,
      withApprovedWorkflows, hauthority]

/-- The guards on the answer to a request. -/
def reportedGuards (w : SqlWorld) (e : WorkflowEvent) : Option (List String) :=
  match (demoSystem.serve w (0, .proposeEvent e)).result with
  | .ok (.packet p) => some p.decision.triggeredGuards
  | _ => none

theorem accepted_of_reportedGuards {w : SqlWorld} {e : WorkflowEvent} {guards : List String}
    (h : reportedGuards w e = some guards) :
    ∃ p, Accepted (demoSystem.serve w (0, .proposeEvent e)) e p ∧
      p.decision.triggeredGuards = guards := by
  unfold reportedGuards at h
  split at h
  · rename_i p hp
    exact ⟨p, ⟨rfl, hp⟩, Option.some.inj h⟩
  · cases h

/-- The rule matches, the workflow is not one of the agent's, and the guard is silent. -/
theorem agent_silences_guard : ∃ p,
    GuardedBy demoPlane payrollWorld.store silencingEvent demoAgent
      (columnRule { payrollRule with createdBy := some "approver" }) ∧
    Accepted (demoSystem.serve payrollWorld (0, .proposeEvent silencingEvent)) silencingEvent p ∧
    ¬ (Reports p ↔ Outside demoAgent silencingEvent) := by
  have hreported : reportedGuards payrollWorld silencingEvent = some [] := by decide +kernel
  obtain ⟨p, hacc, hguards⟩ := accepted_of_reportedGuards hreported
  refine ⟨p, guardedBy_payrollRule rfl rfl rfl, hacc, fun h => ?_⟩
  have hreports : Reports p := h.mpr ⟨by decide, by decide⟩
  rw [Reports, hguards] at hreports
  cases hreports

/-- A proposal that leaves the entry to the server is caught, whatever else it says. -/
theorem payroll_is_reported : ∃ p p',
    Accepted (demoSystem.serve payrollWorld (0, .proposeEvent payrollEvent)) payrollEvent p ∧
    Accepted (demoSystem.serve payrollWorld (0, .proposeEvent
      { payrollEvent with metadata := [("team", .text "finance")], signature := some "key" }))
      { payrollEvent with metadata := [("team", .text "finance")], signature := some "key" } p' ∧
    (Reports p ↔ Outside demoAgent payrollEvent) ∧ (Reports p ↔ Reports p') := by
  have hfired : reportedGuards payrollWorld payrollEvent = some ["outside_known_workflow"] := by
    decide +kernel
  have hfired' : reportedGuards payrollWorld
      { payrollEvent with metadata := [("team", .text "finance")], signature := some "key" } =
        some ["outside_known_workflow"] := by
    decide +kernel
  obtain ⟨p, hacc, _⟩ := accepted_of_reportedGuards hfired
  obtain ⟨p', hacc', _⟩ := accepted_of_reportedGuards hfired'
  obtain ⟨hreports, _, hsame⟩ := (server_guard_iff (guardedBy_payrollRule rfl rfl rfl) hacc rfl
    (guardedBy_payrollRule rfl rfl rfl) hacc').mpr ⟨nofun, nofun⟩
  exact ⟨p, p', hacc, hacc', hreports, hsame⟩

end EarnedAutonomy
