import EarnedAutonomy.Core.RuleSearch

/-!
# The order of the rules

A proposal uses one rule, the first that matches, and no store promises an order.

* `Searches` is a proposal that gets as far as the search, and `Usable` a rule with which
  it then comes to an answer.  `produced_iff`: the state matters to the answer through
  these two.
* `rule_order_iff`: the order of the rules does not matter to a proposal exactly if the
  rules at which its search can stop are interchangeable.
  `first_rule_decides` is a proposal to which it matters.
-/

namespace EarnedAutonomy

open Atomic Service OrderedDict Calendar Store LawfulStore OrderedStore ControlPlane

/-- A grant, up to the order of the keys of its conditions. -/
structure UnorderedGrant where
  agentId : String
  workflowId : String
  authorityClass : AuthorityClass
  conditions : PyVal
  maxConsequenceRank : Int

def Grant.unordered (g : Grant) : UnorderedGrant where
  agentId := g.agentId
  workflowId := g.workflowId
  authorityClass := g.authorityClass
  conditions := sortKeys g.conditions.toVal
  maxConsequenceRank := g.maxConsequenceRank

/-- The status of a proposal, its guards and what its token grants. -/
structure Produced where
  status : AutonomyStatus
  guards : List String
  grant : Option UnorderedGrant

def produced {F S C L : Type} (y : CpTurn F S C L) : Option Produced :=
  (outcomeOf y.result).map fun out =>
    ⟨out.decision.status, out.decision.triggeredGuards, out.grant.map Grant.unordered⟩

section

variable {P : Primitives} {F : Type} (cp : ControlPlane P F) (o : Oracle)
variable {S C L : Type} [Store S] [LawfulStore S] [OrderedStore S]

/-- The same agents, events, nonces and rules, with the rules in some order. -/
def Reordered (s s' : S) : Prop := view s' = view s ∧ (rules s').Perm (rules s)

/-- The proposal gets as far as the search for a rule, and from there on only the rule it
finds can keep it from an answer. -/
structure Searches (w : World S C L) (e : WorkflowEvent) (w' : World S C L)
    (agent : AgentIdentity) (current : AutonomyLevel) : Prop where
  found : cp.found o w e = some (agent, w')
  authentic : cp.Authentic agent e
  free : (view w.store).nonces e.agentId e.nonce = false
  classified : ∃ consequences risk reasons, cp.classify e = .ok (consequences, risk, reasons) ∧
    ∀ t ∈ reasons, t.isUtf8 = true
  level : agent.autonomyFor e.workflowId e.authorityRequested = .ok current
  recordable : e.Recordable
  agentWritable : agent.toDict.Encodable
  boundary : ∀ b ∈ cp.policyEngine.boundary? (withApprovedWorkflows e agent), b.Writable

/-- A proposal that finds this rule is answered: the rule can be compared with the event,
its guards do not raise, the ledger can record it, and the token expires within the
calendar. -/
structure Usable (w' : World S C L) (e : WorkflowEvent) (agent : AgentIdentity)
    (current : AutonomyLevel) (rule? : Option DelegationRule) : Prop where
  compares : ∀ r ∈ rule?, ∃ matched, r.matchesEvent e = .ok matched
  writable : ∀ r ∈ rule?, r.toDict.Encodable
  guards : ∃ fired,
    ruleGuards cp.policyEngine (withApprovedWorkflows e agent) current rule? = .ok fired ∧
      cp.Expires o w'
        (ruleStatus cp.policyEngine (withApprovedWorkflows e agent) current rule? fired)

/-- What a proposal that finds this rule produces. -/
def Produces (w' : World S C L) (e : WorkflowEvent) (agent : AgentIdentity)
    (current : AutonomyLevel) (rule? : Option DelegationRule) (x : Produced) : Prop :=
  Usable cp o w' e agent current rule? ∧ ∃ fired,
    ruleGuards cp.policyEngine (withApprovedWorkflows e agent) current rule? = .ok fired ∧
    x.guards = fired ∧
    x.status = ruleStatus cp.policyEngine (withApprovedWorkflows e agent) current rule? fired ∧
    x.grant = (grantUnder (withApprovedWorkflows e agent) rule? x.status).map Grant.unordered

/-- Two rules are as good as each other for a proposal: both keep it from an answer, or
the same guards fire, their rungs mean the same, and where the action may proceed their
conditions are the same up to the order of keys. -/
structure Interchangeable (w' : World S C L) (e : WorkflowEvent) (agent : AgentIdentity)
    (current : AutonomyLevel) (r r' : DelegationRule) : Prop where
  usable : Usable cp o w' e agent current (some r) ↔ Usable cp o w' e agent current (some r')
  guards : Usable cp o w' e agent current (some r) →
    ruleGuards cp.policyEngine (withApprovedWorkflows e agent) current (some r) =
      ruleGuards cp.policyEngine (withApprovedWorkflows e agent) current (some r')
  rungs : Usable cp o w' e agent current (some r) →
    cp.policyEngine.boundary? (withApprovedWorkflows e agent) = none →
    ruleGuards cp.policyEngine (withApprovedWorkflows e agent) current (some r) = .ok [] →
    rungStatus (withApprovedWorkflows e agent)
        (effectiveLevel e.authorityRequested current (some r)) =
      rungStatus (withApprovedWorkflows e agent)
        (effectiveLevel e.authorityRequested current (some r'))
  conditions : Usable cp o w' e agent current (some r) → ∀ fired,
    ruleGuards cp.policyEngine (withApprovedWorkflows e agent) current (some r) = .ok fired →
    (ruleStatus cp.policyEngine (withApprovedWorkflows e agent) current (some r)
      fired).permissive = true → sortKeys r.conditions.toVal = sortKeys r'.conditions.toVal

end

/-! ## Rules in each other's place -/

section

variable {P : Primitives} {F : Type} {cp : ControlPlane P F} {o : Oracle} {S C L : Type}
variable {w₁ : World S C L} {e : WorkflowEvent} {agent : AgentIdentity} {current : AutonomyLevel}
variable {rule? : Option DelegationRule} {r r' : DelegationRule} {x : Produced}

/-- The answer depends on the clock, and on nothing else of the state. -/
theorem Produces.of_reads {w₂ : World S C L} (hreads : w₂.reads = w₁.reads)
    (h : Produces cp o w₁ e agent current rule? x) :
    Produces cp o w₂ e agent current rule? x := by
  obtain ⟨⟨hcompares, hwritable, fired, hguards, hexpires⟩, hrest⟩ := h
  refine ⟨⟨hcompares, hwritable, fired, hguards, ?_⟩, hrest⟩
  unfold Expires at hexpires ⊢
  rwa [hreads]

/-- A rule that can be used produces one thing. -/
theorem Usable.produces (h : Usable cp o w₁ e agent current rule?) :
    ∃ x, Produces cp o w₁ e agent current rule? x := by
  obtain ⟨fired, hguards, _⟩ := h.guards
  exact ⟨⟨_, _, (grantUnder _ _ _).map Grant.unordered⟩, h, fired, hguards, rfl, rfl, rfl⟩

/-- The guards that fire and the rung decide. -/
theorem ruleStatus_eq_iff {engine : PolicyEngine} {fired : List String} :
    ruleStatus engine e current (some r) fired = ruleStatus engine e current (some r') fired ↔
      (engine.boundary? e = none → fired = [] →
        rungStatus e (effectiveLevel e.authorityRequested current (some r)) =
          rungStatus e (effectiveLevel e.authorityRequested current (some r'))) := by
  unfold ruleStatus
  cases engine.boundary? e with
  | some b => simp
  | none =>
    cases fired with
    | nil => simp
    | cons name rest => simp

/-- The conditions decide, where the action may proceed. -/
theorem grants_eq_iff {status : AutonomyStatus} :
    (grantUnder e (some r) status).map Grant.unordered =
        (grantUnder e (some r') status).map Grant.unordered ↔
      (status.permissive = true →
        sortKeys r.conditions.toVal = sortKeys r'.conditions.toVal) := by
  unfold grantUnder
  cases status.permissive with
  | false => simp
  | true => simp [Grant.unordered]

/-- The same status, and the same conditions where the action may proceed. -/
theorem Interchangeable.alike (h : Interchangeable cp o w₁ e agent current r r')
    (husable : Usable cp o w₁ e agent current (some r)) {fired : List String}
    (hfired : ruleGuards cp.policyEngine (withApprovedWorkflows e agent) current (some r) =
      .ok fired) :
    ruleStatus cp.policyEngine (withApprovedWorkflows e agent) current (some r) fired =
        ruleStatus cp.policyEngine (withApprovedWorkflows e agent) current (some r') fired ∧
      ((ruleStatus cp.policyEngine (withApprovedWorkflows e agent) current (some r)
        fired).permissive = true →
          sortKeys r.conditions.toVal = sortKeys r'.conditions.toVal) := by
  refine ⟨ruleStatus_eq_iff.mpr fun hbound hnone => ?_, h.conditions husable fired hfired⟩
  rw [hnone] at hfired
  exact h.rungs husable hbound hfired

theorem Interchangeable.produces (h : Interchangeable cp o w₁ e agent current r r')
    (hx : Produces cp o w₁ e agent current (some r) x) :
    Produces cp o w₁ e agent current (some r') x := by
  obtain ⟨husable, fired, hguards, hfired, hstatus, hgrant⟩ := hx
  obtain ⟨hsame, hconditions⟩ := h.alike husable hguards
  refine ⟨h.usable.mp husable, fired, (h.guards husable).symm.trans hguards, hfired,
    hstatus.trans hsame, ?_⟩
  rw [hgrant, grants_eq_iff]
  intro hperm
  rw [hstatus] at hperm
  exact hconditions hperm

theorem Interchangeable.symm (h : Interchangeable cp o w₁ e agent current r r') :
    Interchangeable cp o w₁ e agent current r' r := by
  have hguards (husable : Usable cp o w₁ e agent current (some r')) :=
    h.guards (h.usable.mpr husable)
  refine ⟨h.usable.symm, fun husable => (hguards husable).symm, fun husable hbound hnone => ?_,
    fun husable fired hfired hperm => ?_⟩
  · exact (h.rungs (h.usable.mpr husable) hbound ((hguards husable).trans hnone)).symm
  · obtain ⟨hsame, hconditions⟩ :=
      h.alike (h.usable.mpr husable) ((hguards husable).trans hfired)
    rw [← hsame] at hperm
    exact (hconditions hperm).symm

variable (e current) in
/-- Rules of one level with the same guards grant alike. -/
theorem grants_of_alike (hlevel : r.autonomyLevel = r'.autonomyLevel)
    (hguards : r.requiresApprovalIf = r'.requiresApprovalIf) (engine : PolicyEngine) :
    ruleGuards engine e current (some r) = ruleGuards engine e current (some r') ∧
      effectiveLevel e.authorityRequested current (some r) =
        effectiveLevel e.authorityRequested current (some r') := by
  unfold ruleGuards effectiveLevel candidateLevel
  by_cases hgrants : current.value < r.autonomyLevel.value
  · have hr : grantingRule current (some r) = some r := if_pos hgrants
    have hr' : grantingRule current (some r') = some r' := if_pos (hlevel ▸ hgrants)
    rw [hr, hr']
    cases engine.boundary? e with
    | none =>
      dsimp only
      rw [hlevel, hguards]
      exact ⟨rfl, rfl⟩
    | some b =>
      dsimp only
      rw [hlevel]
      exact ⟨rfl, rfl⟩
  · have hr : grantingRule current (some r) = none := if_neg hgrants
    have hr' : grantingRule current (some r') = none := if_neg (hlevel ▸ hgrants)
    rw [hr, hr']
    exact ⟨rfl, rfl⟩

/-- A rule can be used where one like it can. -/
theorem Usable.of_alike (h : Usable cp o w₁ e agent current (some r))
    (hlevel : r.autonomyLevel = r'.autonomyLevel)
    (hguards : r.requiresApprovalIf = r'.requiresApprovalIf)
    (hcompares : ∃ matched, r'.matchesEvent e = .ok matched) (hwritable : r'.toDict.Encodable) :
    Usable cp o w₁ e agent current (some r') := by
  obtain ⟨hsame, heffective⟩ := grants_of_alike (withApprovedWorkflows e agent) current
    hlevel hguards cp.policyEngine
  obtain ⟨fired, hfired, hexpires⟩ := h.guards
  rw [ruleStatus_eq_iff.mpr fun _ _ => congrArg _ heffective] at hexpires
  refine ⟨fun x hx => ?_, fun x hx => ?_, fired, hsame.symm.trans hfired, hexpires⟩
  · obtain rfl := Option.some.inj hx
    exact hcompares
  · obtain rfl := Option.some.inj hx
    exact hwritable

/-- Rules of one level with the same guards, and with the same conditions up to the order of
keys, are interchangeable if both can be compared with the event and recorded. -/
theorem interchangeable_of_alike (hlevel : r.autonomyLevel = r'.autonomyLevel)
    (hguards : r.requiresApprovalIf = r'.requiresApprovalIf)
    (hconditions : sortKeys r.conditions.toVal = sortKeys r'.conditions.toVal)
    (hcompares : ∃ matched, r.matchesEvent e = .ok matched) (hwritable : r.toDict.Encodable)
    (hcompares' : ∃ matched, r'.matchesEvent e = .ok matched) (hwritable' : r'.toDict.Encodable) :
    Interchangeable cp o w₁ e agent current r r' := by
  obtain ⟨hsame, heffective⟩ := grants_of_alike (withApprovedWorkflows e agent) current
    hlevel hguards cp.policyEngine
  refine ⟨⟨fun h => h.of_alike hlevel hguards hcompares' hwritable',
    fun h => h.of_alike hlevel.symm hguards.symm hcompares hwritable⟩, fun _ => hsame,
    fun _ _ _ => congrArg _ heffective, fun _ _ _ _ => hconditions⟩

/-- Rules are interchangeable exactly if they lead to the same. -/
theorem interchangeable_iff :
    Interchangeable cp o w₁ e agent current r r' ↔
      ∀ x, Produces cp o w₁ e agent current (some r) x ↔
        Produces cp o w₁ e agent current (some r') x := by
  constructor
  · intro h x
    exact ⟨h.produces, h.symm.produces⟩
  · intro h
    have hboth (husable : Usable cp o w₁ e agent current (some r)) {fired : List String}
        (hfired : ruleGuards cp.policyEngine (withApprovedWorkflows e agent) current (some r) =
          .ok fired) :
        ruleGuards cp.policyEngine (withApprovedWorkflows e agent) current (some r') = .ok fired ∧
          ∃ status, ruleStatus cp.policyEngine (withApprovedWorkflows e agent) current (some r)
              fired = status ∧
            ruleStatus cp.policyEngine (withApprovedWorkflows e agent) current (some r')
              fired = status ∧
            (grantUnder (withApprovedWorkflows e agent) (some r) status).map Grant.unordered =
              (grantUnder (withApprovedWorkflows e agent) (some r') status).map
                Grant.unordered := by
      obtain ⟨x, hx⟩ := husable.produces
      obtain ⟨_, fired₂, hguards₂, hfired₂, hstatus₂, hgrant₂⟩ := (h x).mp hx
      obtain ⟨_, fired₁, hguards₁, hfired₁, hstatus₁, hgrant₁⟩ := hx
      obtain rfl : fired₁ = fired := Except.ok.inj (hguards₁.symm.trans hfired)
      obtain rfl : fired₂ = fired₁ := hfired₂.symm.trans hfired₁
      exact ⟨hguards₂, x.status, hstatus₁.symm, hstatus₂.symm, hgrant₁.symm.trans hgrant₂⟩
    refine ⟨⟨fun husable => ?_, fun husable => ?_⟩, fun husable => ?_,
      fun husable hbound hnone => ?_, fun husable fired hfired hperm => ?_⟩
    · obtain ⟨x, hx⟩ := husable.produces
      exact ((h x).mp hx).1
    · obtain ⟨x, hx⟩ := husable.produces
      exact ((h x).mpr hx).1
    · obtain ⟨fired, hfired, _⟩ := husable.guards
      rw [hfired, (hboth husable hfired).1]
    · obtain ⟨_, status, hstatus, hstatus', _⟩ := hboth husable hnone
      exact ruleStatus_eq_iff.mp (hstatus.trans hstatus'.symm) hbound rfl
    · obtain ⟨_, status, hstatus, _, hgrant⟩ := hboth husable hfired
      rw [hstatus] at hperm
      exact grants_eq_iff.mp hgrant hperm

end

section

variable {P : Primitives} {F : Type} {cp : ControlPlane P F} {o : Oracle} {S C L : Type}
variable [Store S] [LawfulStore S] [OrderedStore S] {w w₁ : World S C L} {e : WorkflowEvent}
variable {agent : AgentIdentity} {current : AutonomyLevel} {x : Produced}

/-! ## Proposals in a reordered store -/

omit [OrderedStore S] in
/-- A proposal has one search. -/
theorem Searches.unique {w₂ : World S C L} {agent' : AgentIdentity} {current' : AutonomyLevel}
    (h : Searches cp o w e w₁ agent current) (h' : Searches cp o w e w₂ agent' current') :
    w₂ = w₁ ∧ agent' = agent ∧ current' = current := by
  have hfound := h'.found.symm.trans h.found
  rw [Option.some.injEq, Prod.mk.injEq] at hfound
  obtain ⟨rfl, rfl⟩ := hfound
  exact ⟨rfl, rfl, Except.ok.inj (h'.level.symm.trans h.level)⟩

omit [OrderedStore S] in
/-- A store that holds the same leads to the same search. -/
theorem Searches.of_view {s' : S} (hview : view s' = view w.store)
    (h : Searches cp o w e w₁ agent current) :
    ∃ w₂, Searches cp o { w with store := s' } e w₂ agent current ∧ w₂.reads = w₁.reads := by
  have hfound : ∃ w₂, cp.found o { w with store := s' } e = some (agent, w₂) ∧
      w₂.reads = w₁.reads := by
    have hfound := h.found
    unfold ControlPlane.found at hfound ⊢
    rw [getAgent_eq] at hfound ⊢
    rw [hview]
    cases hagent : (view w.store).agents e.agentId with
    | some known =>
      rw [hagent] at hfound
      cases hfound
      exact ⟨_, rfl, rfl⟩
    | none =>
      rw [hagent] at hfound
      dsimp only at hfound ⊢
      split at hfound
      · cases hfound
      · rename_i hstrict
        cases hfound
        rw [if_neg hstrict]
        exact ⟨_, rfl, rfl⟩
  obtain ⟨w₂, hfound, hreads⟩ := hfound
  have hfree : (view s').nonces e.agentId e.nonce = false := by
    rw [hview]
    exact h.free
  exact ⟨w₂, ⟨hfound, h.authentic, hfree, h.classified, h.level, h.recordable, h.agentWritable,
    h.boundary⟩, hreads⟩

/-! ## What comes back -/

variable [CapabilityStateStore C] [AuditLog L] [LawfulAuditLog L] [LawfulRecorder L]
variable [Arithmetic F]

/-- What a proposal produces depends on the rules through the one it finds. -/
theorem produced_iff (replica : Nat) :
    produced ((cp.system o).serve w (replica, .proposeEvent e)) = some x ↔
      ∃ w₁ agent current, Searches cp o w e w₁ agent current ∧
        Produces cp o w₁ e agent current ((rules w.store).find? (·.stops e)) x := by
  unfold produced
  rw [Option.map_eq_some_iff]
  simp only [outcome_iff]
  constructor
  · rintro ⟨out, ⟨w₁, p, ⟨hfound, hauthentic, hfree, hanswered⟩, hexpires, hencodable, rfl⟩, rfl⟩
    obtain ⟨consequences, risk, reasons, current, rule?, d, hclass, hlevel, hrule, hdecision,
      hp⟩ := assessment_eq_ok_iff.mp hanswered
    rw [Packet.encodable_ledgerDict] at hencodable
    rw [hp] at hexpires hencodable ⊢
    obtain ⟨hrecordable, hagent, hd, hreasons, hrules⟩ := hencodable
    obtain ⟨hstop, hcompares⟩ := (matchingRule_eq_ok_iff hfound).mp hrule
    obtain ⟨fired, hguards, hstatus, hfired, hwritable⟩ := decidedBy_of_evaluate hdecision
    dsimp only at hexpires
    rw [hstatus] at hexpires
    refine ⟨w₁, p.agent, current, ⟨hfound, hauthentic, hfree, ⟨_, _, _, hclass, hreasons⟩, hlevel,
      WorkflowEvent.recordable_withApprovedWorkflows.mp hrecordable, hagent,
      (hwritable hrules).mp hd⟩, ?_⟩
    rw [← hstop]
    exact ⟨⟨hcompares, hrules, fired, hguards, hexpires⟩, fired, hguards, hfired, hstatus, rfl⟩
  · rintro ⟨w₁, agent, current, hsearches, ⟨husable, fired, hguards, hfired, hstatus, hgrant⟩⟩
    obtain ⟨hfound, hauthentic, hfree, ⟨consequences, risk, reasons, hclass, hreasons⟩, hlevel,
      hrecordable, hagent, hboundary⟩ := hsearches
    obtain ⟨hcompares, hrules, fired', hguards', hexpires⟩ := husable
    obtain rfl : fired' = fired := Except.ok.inj (hguards'.symm.trans hguards)
    obtain ⟨d, hdecision, hdecided⟩ := evaluate_of_guards consequences risk hguards
    have hrule := (matchingRule_eq_ok_iff hfound).mpr ⟨rfl, hcompares⟩
    let p : Packet := ⟨withApprovedWorkflows e agent, agent, current, d, reasons,
      (rules w.store).find? (·.stops e), none⟩
    have hanswered : cp.assessment w₁.store e agent = .ok p :=
      assessment_eq_ok_iff.mpr ⟨_, _, _, _, _, _, hclass, hlevel, hrule, hdecision, rfl⟩
    rw [← hdecided.status] at hexpires hstatus
    refine ⟨_, ⟨w₁, p, ⟨hfound, hauthentic, hfree, hanswered⟩, hexpires, ?_, rfl⟩, ?_⟩
    · rw [Packet.encodable_ledgerDict]
      exact ⟨WorkflowEvent.recordable_withApprovedWorkflows.mpr hrecordable, hagent,
        (hdecided.encodable hrules).mpr hboundary, hreasons, hrules⟩
    · rw [hstatus] at hgrant
      cases x
      simp only [Produced.mk.injEq]
      exact ⟨hstatus.symm, hdecided.guards.trans hfired.symm, hgrant.symm⟩

/-- Once the search is reached, the rule it finds says what is produced. -/
theorem Searches.produced_iff (replica : Nat) (h : Searches cp o w e w₁ agent current) {s' : S}
    (hview : view s' = view w.store) :
    produced ((cp.system o).serve { w with store := s' } (replica, .proposeEvent e)) = some x ↔
      Produces cp o w₁ e agent current ((rules s').find? (·.stops e)) x := by
  obtain ⟨w₂, h₂, hreads⟩ := h.of_view hview
  rw [EarnedAutonomy.produced_iff]
  constructor
  · rintro ⟨w₃, agent', current', h₃, hproduces⟩
    obtain ⟨rfl, rfl, rfl⟩ := h₂.unique h₃
    exact hproduces.of_reads hreads.symm
  · intro hproduces
    exact ⟨w₂, agent, current, h₂, hproduces.of_reads hreads⟩

/-- A proposal that does not reach the search produces nothing in any order. -/
theorem produced_of_not_searches (replica : Nat)
    (h : ¬ ∃ w₁ agent current, Searches cp o w e w₁ agent current) {s' : S}
    (hview : view s' = view w.store) :
    produced ((cp.system o).serve { w with store := s' } (replica, .proposeEvent e)) = none := by
  rw [Option.eq_none_iff_forall_ne_some]
  intro x hx
  obtain ⟨w₁, agent, current, hsearches, _⟩ := (produced_iff replica).mp hx
  obtain ⟨w₂, hback, _⟩ := Searches.of_view (w := { w with store := s' }) hview.symm hsearches
  exact h ⟨w₂, agent, current, hback⟩

variable (cp o) in
/-- The order of the rules does not matter to a proposal exactly if it does not reach the
search, or if the rules at which the search can stop are interchangeable. -/
theorem rule_order_iff (replica : Nat) (w : World S C L) (e : WorkflowEvent) :
    (∀ s', Reordered w.store s' →
        produced ((cp.system o).serve { w with store := s' } (replica, .proposeEvent e)) =
          produced ((cp.system o).serve w (replica, .proposeEvent e))) ↔
      ∀ w₁ agent current, Searches cp o w e w₁ agent current →
        ∀ r ∈ rules w.store, ∀ r' ∈ rules w.store, r.stops e = true → r'.stops e = true →
          Interchangeable cp o w₁ e agent current r r' := by
  by_cases hreached : ∃ w₁ agent current, Searches cp o w e w₁ agent current
  · obtain ⟨w₁, agent, current, h⟩ := hreached
    have hsets (s' : S) (hview : view s' = view w.store) :
        produced ((cp.system o).serve { w with store := s' } (replica, .proposeEvent e)) =
            produced ((cp.system o).serve w (replica, .proposeEvent e)) ↔
          {x | Produces cp o w₁ e agent current ((rules s').find? (·.stops e)) x} =
            {x | Produces cp o w₁ e agent current ((rules w.store).find? (·.stops e)) x} := by
      rw [Option.ext_iff, Set.ext_iff]
      refine forall_congr' fun x => ?_
      rw [h.produced_iff replica hview]
      exact iff_congr Iff.rfl (h.produced_iff replica rfl)
    have horder := Search.find?_perm_iff (p := (·.stops e)) (l := rules w.store)
      (f := fun rule? => {x | Produces cp o w₁ e agent current rule? x})
    constructor
    · intro hsame w₂ agent' current' h' r hr r' hr' hstop hstop'
      obtain ⟨rfl, rfl, rfl⟩ := h.unique h'
      rw [interchangeable_iff]
      refine fun x => Set.ext_iff.mp (horder.mp (fun rs hrs => ?_) r hr r' hr' hstop hstop') x
      obtain ⟨s', hview, rfl⟩ := exists_reordered w.store rs hrs
      exact (hsets s' hview).mp (hsame s' ⟨hview, hrs⟩)
    · intro hall s' hs'
      rw [hsets s' hs'.1]
      refine horder.mpr (fun r hr r' hr' hstop hstop' => ?_) _ hs'.2
      exact Set.ext fun x =>
        interchangeable_iff.mp (hall _ _ _ h r hr r' hr' hstop hstop') x
  · refine iff_of_true (fun s' hs' => ?_) fun w₁ agent current h => ?_
    · rw [produced_of_not_searches replica hreached hs'.1]
      exact (produced_of_not_searches replica hreached rfl).symm
    · exact absurd ⟨w₁, agent, current, h⟩ hreached

end

/-! ## Two rules of one scope -/

/-- Two rules of one scope are approved, on different rungs. -/
def twoRules : SqlWorld :=
  demoSystem.final (World.initial _ _ _) [
    (0, .registerAgent demoAgent),
    (0, .approveDelegationRule (demoRule .modifyInternalRecord .executeWithSampling) "approver"
      none),
    (0, .approveDelegationRule
      { demoRule .modifyInternalRecord .executeWithApproval with ruleId := "rule_2" } "approver"
      none)]

/-- The same rows, the later one first. -/
def twoRulesSwapped : SqlStore :=
  { twoRules.store with
    rules := twoRules.store.rules.reverse
    nodup := by
      rw [List.map_reverse]
      exact List.nodup_reverse.mpr twoRules.store.nodup
    keyed := fun e he => twoRules.store.keyed e (List.mem_reverse.mp he) }

theorem twoRules_reordered : Reordered twoRules.store twoRulesSwapped := by
  have hperm : twoRules.store.rules.reverse.Perm twoRules.store.rules := List.reverse_perm _
  exact ⟨StoreView.ext rfl rfl (funext (Dict.get?_perm twoRules.store.nodup hperm)) rfl,
    hperm.map Prod.snd⟩

theorem twoRules_differ :
    produced (demoSystem.serve { twoRules with store := twoRulesSwapped }
        (0, .proposeEvent (demoEvent true))) ≠
      produced (demoSystem.serve twoRules (0, .proposeEvent (demoEvent true))) := by
  intro h
  have hstatus := congrArg (Option.map Produced.status) h
  revert hstatus
  decide +kernel

/-- The rule that comes first decides whether the action waits for an approval. -/
theorem first_rule_decides :
    ¬ ∀ s', Reordered twoRules.store s' →
      produced (demoSystem.serve { twoRules with store := s' }
          (0, .proposeEvent (demoEvent true))) =
        produced (demoSystem.serve twoRules (0, .proposeEvent (demoEvent true))) :=
  fun h => twoRules_differ (h _ twoRules_reordered)

/-! ## Two rules with the same conditions -/

/-- An event with two fields. -/
def fieldsEvent : WorkflowEvent :=
  { demoEvent true with metadata := [("amount", .int 40), ("region", .text "eu")] }

/-- A condition for each of the fields. -/
def fieldConditions : Mapping := [("amount", .dict [("max", .int 100)]), ("region", .text "eu")]

def fieldsRule (ruleId : String) (conditions : Mapping) : DelegationRule :=
  { demoRule .modifyInternalRecord .executeWithSampling with
    ruleId := ruleId
    conditions := conditions
    createdBy := some "approver" }

/-- Two rules are approved that list their conditions in different orders. -/
def twinRules : SqlWorld :=
  demoSystem.final (World.initial _ _ _) [
    (0, .registerAgent demoAgent),
    (0, .approveDelegationRule (fieldsRule "rule_1" fieldConditions) "approver" none),
    (0, .approveDelegationRule (fieldsRule "rule_2" fieldConditions.reverse) "approver" none)]

theorem rules_twinRules : rules twinRules.store =
    [fieldsRule "rule_1" fieldConditions, fieldsRule "rule_2" fieldConditions.reverse] := rfl

/-- The twins are interchangeable for the event. -/
theorem twinRules_interchangeable {w₁ : SqlWorld} {agent : AgentIdentity}
    {current : AutonomyLevel} : ∀ r ∈ rules twinRules.store, ∀ r' ∈ rules twinRules.store,
      Interchangeable demoPlane (demoOracle fun _ => demoHour 12) w₁ fieldsEvent agent current
        r r' := by
  rw [rules_twinRules]
  have hshape : ∀ r ∈ [fieldsRule "rule_1" fieldConditions,
      fieldsRule "rule_2" fieldConditions.reverse],
      r.autonomyLevel = .executeWithSampling ∧ r.requiresApprovalIf = [] ∧
        sortKeys r.conditions.toVal = fieldConditions.toVal ∧
        (∃ matched, r.matchesEvent fieldsEvent = .ok matched) ∧ r.toDict.Encodable := by
    rw [List.forall_mem_cons, List.forall_mem_singleton]
    exact ⟨⟨rfl, rfl, rfl, ⟨_, rfl⟩, rfl, rfl⟩, rfl, rfl, rfl, ⟨_, rfl⟩, rfl, rfl⟩
  intro r hr r' hr'
  obtain ⟨hlevel, hguards, hconditions, hcompares, hwritable⟩ := hshape r hr
  obtain ⟨hlevel', hguards', hconditions', hcompares', hwritable'⟩ := hshape r' hr'
  exact interchangeable_of_alike (hlevel.trans hlevel'.symm) (hguards.trans hguards'.symm)
    (hconditions.trans hconditions'.symm) hcompares hwritable hcompares' hwritable'

/-- The two rules on different rungs are not interchangeable.  The twins are, and no order
of theirs changes the answer. -/
theorem rule_order_iff_demo :
    (∃ (w₁ : SqlWorld) (agent : AgentIdentity) (current : AutonomyLevel),
      ∃ r ∈ rules twoRules.store, ∃ r' ∈ rules twoRules.store,
        ¬ Interchangeable demoPlane (demoOracle fun _ => demoHour 12) w₁ (demoEvent true) agent
          current r r') ∧
    (produced (demoSystem.serve twinRules (0, .proposeEvent fieldsEvent))).isSome = true ∧
    ∀ s', Reordered twinRules.store s' →
      produced (demoSystem.serve { twinRules with store := s' } (0, .proposeEvent fieldsEvent)) =
        produced (demoSystem.serve twinRules (0, .proposeEvent fieldsEvent)) := by
  have horder := rule_order_iff demoPlane (demoOracle fun _ => demoHour 12) 0
    (S := SqlStore) (C := SqlCapabilityStore) (L := SqlAuditLedger)
  refine ⟨?_, by decide +kernel, (horder twinRules fieldsEvent).mpr
    fun _ _ _ _ r hr r' hr' _ _ => twinRules_interchangeable r hr r' hr'⟩
  by_contra hnone
  push Not at hnone
  exact twoRules_differ ((horder twoRules (demoEvent true)).mpr
    (fun w₁ agent current _ r hr r' hr' _ _ => hnone w₁ agent current r hr r' hr') _
    twoRules_reordered)

end EarnedAutonomy
