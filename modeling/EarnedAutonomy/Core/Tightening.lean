import EarnedAutonomy.Core.Incidents
import EarnedAutonomy.Core.RuleSearch

/-!
# What tightens and what loosens

`revoke_delegation_rule` and `record_incident` take rules out of force.  The search for a
rule then goes on to the next one.

* `issues_iff_admits`: a proposal puts a token on record exactly if it reaches the search
  and the rule it finds admits it.
* `TightenedBy` is what the two commands do to a store (`tightenedBy_of_revoke`,
  `tightenedBy_of_incident`).
* `tightening_tightens`: no token comes from it where the command does not expose the
  event.  `revocation_and_incident_loosen` are two commands that do.
* `expiresBefore_of_runs`: the end of the calendar matters only where the clock goes back
  or a lifetime is negative.
-/

namespace EarnedAutonomy

open Atomic Service Prog OrderedDict Calendar Store LawfulStore OrderedStore ControlPlane

/-! ## Tokens and rules -/

section

variable {P : Primitives} {F : Type} (cp : ControlPlane P F) (o : Oracle)
variable {S C L : Type}

/-- The proposal gets as far as the search for a rule. -/
structure Reaches [Store S] [LawfulStore S] (w : World S C L) (e : WorkflowEvent)
    (w' : World S C L) (agent : AgentIdentity) (current : AutonomyLevel) : Prop where
  found : cp.found o w e = some (agent, w')
  authentic : cp.Authentic agent e
  free : (view w.store).nonces e.agentId e.nonce = false
  classified : ∃ x, cp.classify e = .ok x
  level : agent.autonomyFor e.workflowId e.authorityRequested = .ok current

/-- The rule lets the event proceed: it can be compared, no guard and no rung holds the
event back, and its token can be minted. -/
structure Admits (w : World S C L) (e : WorkflowEvent) (agent : AgentIdentity)
    (current : AutonomyLevel) (rule? : Option DelegationRule) : Prop where
  compares : ∀ r ∈ rule?, ∃ matched, r.matchesEvent e = .ok matched
  clear : ∃ fired,
    ruleGuards cp.policyEngine (withApprovedWorkflows e agent) current rule? = .ok fired ∧
      (ruleStatus cp.policyEngine (withApprovedWorkflows e agent) current rule?
        fired).permissive = true ∧
      cp.Expires o w
        (ruleStatus cp.policyEngine (withApprovedWorkflows e agent) current rule? fired)
  signable : ∀ r ∈ rule?, r.conditions.toVal.Encodable

variable {cp o} [Store S] [LawfulStore S] [OrderedStore S] [CapabilityStateStore C] [AuditLog L]
variable [Arithmetic F] {w : World S C L} {e : WorkflowEvent}

variable (cp o w e) in
/-- A token is put on record if the search is reached and its result admits the event. -/
theorem issues_iff_admits (replica : Nat) :
    Issues ((cp.system o).serve w (replica, .proposeEvent e)) ↔
      ∃ w₁ agent current, Reaches cp o w e w₁ agent current ∧
        Admits cp o w₁ e agent current ((rules w.store).find? (·.stops e)) := by
  rw [issues_iff]
  constructor
  · rintro ⟨w₁, p, ⟨hfound, hauthentic, hfree, hanswered⟩, hperm, hexpires, hsignable⟩
    obtain ⟨consequences, risk, reasons, current, rule?, d, hclass, hlevel, hrule, hdecision,
      hp⟩ := assessment_eq_ok_iff.mp hanswered
    obtain ⟨rfl, hcompares⟩ := (matchingRule_eq_ok_iff hfound).mp hrule
    obtain ⟨fired, hguards, hstatus, _⟩ := decidedBy_of_evaluate hdecision
    rw [hp] at hperm hexpires hsignable
    dsimp only at hperm hexpires hsignable
    rw [hstatus] at hperm hexpires
    refine ⟨w₁, p.agent, current, ⟨hfound, hauthentic, hfree, ⟨_, hclass⟩, hlevel⟩, hcompares,
      ⟨fired, hguards, hperm, hexpires⟩, fun r hr => ?_⟩
    rw [Option.mem_def] at hr
    rw [hr] at hsignable
    exact hsignable
  · rintro ⟨w₁, agent, current, ⟨hfound, hauthentic, hfree, ⟨x, hclass⟩, hlevel⟩,
      hcompares, ⟨fired, hguards, hperm, hexpires⟩, hsignable⟩
    obtain ⟨consequences, risk, reasons⟩ := x
    obtain ⟨d, hdecision, hdecided⟩ := evaluate_of_guards consequences risk hguards
    have hrule := (matchingRule_eq_ok_iff hfound).mpr ⟨rfl, hcompares⟩
    let p : Packet := ⟨withApprovedWorkflows e agent, agent, current, d, reasons,
      (rules w.store).find? (·.stops e), none⟩
    have hanswered : cp.assessment w₁.store e agent = .ok p :=
      assessment_eq_ok_iff.mpr ⟨_, _, _, _, _, _, hclass, hlevel, hrule, hdecision, rfl⟩
    rw [← hdecided.status] at hperm hexpires
    refine ⟨w₁, p, ⟨hfound, hauthentic, hfree, hanswered⟩, hperm, hexpires, ?_⟩
    show (cp.grantFor _ ((rules w.store).find? (·.stops e)) _).conditions.toVal.Encodable
    cases hfind : (rules w.store).find? (·.stops e) with
    | none => exact encodable_mapping.mpr fun _ hmem => nomatch hmem
    | some r => exact hsignable r hfind

end

/-! ## Commands that tighten -/

namespace Command

/-- `revoke_delegation_rule` and `record_incident` -/
def tightens : Command → Bool
  | .revokeDelegationRule _ _ _ => true
  | .recordIncident _ _ _ _ _ => true
  | _ => false

/-- The command takes the rule out of force. -/
def takesOut {S : Type} [Store S] (s : S) : Command → DelegationRule → Bool
  | .revokeDelegationRule ruleId _ _, r => r.ruleId = ruleId
  | .recordIncident a w c _ _, r => r.inScope a w c.value &&
      (getAgent a s).any fun agent => (agent.autonomyFor w c).isOk
  | _, _ => false

/-- The standing level that the command leaves in the scope of an event. -/
def levelLeft (e : WorkflowEvent) : Command → AutonomyLevel → AutonomyLevel
  | .recordIncident a w c _ _, l =>
      if a = e.agentId ∧ w = e.workflowId ∧ c = e.authorityRequested then
        l.cappedAt .executeWithApproval
      else l
  | _, l => l

end Command

/-- An agent after a command that tightens. -/
structure AgentLeft (cmd : Command) (old new : AgentIdentity) : Prop where
  publicKeyHex : new.publicKeyHex = old.publicKeyHex
  approvedWorkflows : new.approvedWorkflows = old.approvedWorkflows
  active : new.active = old.active
  level : ∀ e : WorkflowEvent, e.agentId = old.agentId →
    new.autonomyFor e.workflowId e.authorityRequested =
      (old.autonomyFor e.workflowId e.authorityRequested).map (cmd.levelLeft e)

/-- A store after a command that tightens: rules are out of force, in their places. -/
structure TightenedBy {S : Type} [Store S] [LawfulStore S] [OrderedStore S] (cmd : Command)
    (s t : S) : Prop where
  rules : List.Forall₂ (fun r r' => if cmd.takesOut s r then r'.active = false else r' = r)
    (rules s) (rules t)
  nonces : (view t).nonces = (view s).nonces
  agents : ∀ i, Option.Rel (AgentLeft cmd) ((view s).agents i) ((view t).agents i)

/-! ## Rules in their places -/

section

variable {S : Type} [Store S] [LawfulStore S] [OrderedStore S] {s t : S}
variable {q : DelegationRule → Bool}

/-- In every place is the rule as it was, or one of the affected rules out of force. -/
def Deactivates (q : DelegationRule → Bool) (s t : S) : Prop :=
  List.Forall₂ (fun r r' => r' = r ∨ q r = true ∧ r'.ruleId = r.ruleId ∧ r'.active = false)
    (rules s) (rules t)

theorem Deactivates.refl : Deactivates q s s :=
  List.forall₂_same.mpr fun _ _ => Or.inl rfl

theorem Deactivates.ruleIds (h : Deactivates q s t) :
    (rules t).map (·.ruleId) = (rules s).map (·.ruleId) := by
  have hids : List.Forall₂ (· = ·) ((rules s).map (·.ruleId)) ((rules t).map (·.ruleId)) := by
    rw [List.forall₂_map_left_iff, List.forall₂_map_right_iff]
    refine h.imp fun r r' hr => ?_
    rcases hr with rfl | ⟨_, hid, _⟩
    · rfl
    · exact hid.symm
  rw [List.forall₂_eq_eq_eq] at hids
  exact hids.symm

/-- An affected rule is written out of force. -/
theorem Deactivates.addRule (h : Deactivates q s t) {r : DelegationRule}
    (hknown : r.ruleId ∈ (rules s).map (·.ruleId))
    (haffected : ∀ x ∈ rules s, x.ruleId = r.ruleId → q x = true) (hinactive : r.active = false) :
    Deactivates q s (Store.addRule r t) := by
  have hknown' : (view t).rules r.ruleId ≠ none := by
    rw [← h.ruleIds] at hknown
    obtain ⟨x, hx, hid⟩ := List.mem_map.mp hknown
    rw [mem_rules, hid] at hx
    rw [hx]
    exact Option.some_ne_none x
  unfold Deactivates
  rw [rules_addRule r t hknown', List.forall₂_map_right_iff]
  have hmem := (List.forall₂_and_left (p := (· ∈ rules s)) _ _).mpr ⟨fun _ hx => hx, h⟩
  refine hmem.imp fun x x' ⟨hx, hpair⟩ => ?_
  have hid : x'.ruleId = x.ruleId := by
    rcases hpair with rfl | ⟨_, hid, _⟩
    · rfl
    · exact hid
  split
  · rename_i hsame
    exact Or.inr ⟨haffected x hx (hid.symm.trans hsame),
      (ruleId_kept r).trans (hsame.symm.trans hid), (ruleActive_kept r).trans hinactive⟩
  · exact hpair

/-- Once no affected rule is left in force, the others are as they were. -/
theorem Deactivates.forall₂ (h : Deactivates q s t)
    (hclosed : ∀ r ∈ rules t, q r = true → r.active = false) :
    List.Forall₂ (fun r r' => if q r then r'.active = false else r' = r) (rules s) (rules t) := by
  obtain ⟨hlength, hzip⟩ := List.forall₂_iff_zip.mp h
  refine List.forall₂_iff_zip.mpr ⟨hlength, fun {r r'} hmem => ?_⟩
  rcases hzip hmem with rfl | ⟨hq, _, hinactive⟩
  · split
    · rename_i hq
      exact hclosed r' (List.of_mem_zip hmem).2 hq
    · rfl
  · rw [if_pos hq]
    exact hinactive

end

/-! ## Agents -/

section

variable {cmd : Command} {a w : String} {c : AuthorityClass} {reason : PyStr} {actorId : String}
variable {agent old new : AgentIdentity}

/-- An agent whose levels the command leaves. -/
theorem AgentLeft.refl
    (h : ∀ (e : WorkflowEvent) l, e.agentId = agent.agentId → cmd.levelLeft e l = l) :
    AgentLeft cmd agent agent := by
  refine ⟨rfl, rfl, rfl, fun e he => ?_⟩
  cases agent.autonomyFor e.workflowId e.authorityRequested with
  | error err => rfl
  | ok l => exact congrArg Except.ok (h e l he).symm

theorem levelLeft_recordIncident_of_ne {e : WorkflowEvent} {l : AutonomyLevel}
    (h : e.agentId ≠ a) : (Command.recordIncident a w c reason actorId).levelLeft e l = l :=
  if_neg fun hscope => h hscope.1.symm

/-- The agent of an incident, whose level was lowered if it is on the ladder. -/
theorem agentLeft_of_incident (hid : old.agentId = a)
    (hkey : new.publicKeyHex = old.publicKeyHex)
    (happroved : new.approvedWorkflows = old.approvedWorkflows) (hactive : new.active = old.active)
    (hlevels : match old.autonomyFor w c with
      | .ok current => new.currentAutonomy =
          (old.setAutonomy w c (current.cappedAt .executeWithApproval)).currentAutonomy
      | .error _ => new.currentAutonomy = old.currentAutonomy) :
    AgentLeft (.recordIncident a w c reason actorId) old new := by
  refine ⟨hkey, happroved, hactive, fun e he => ?_⟩
  by_cases hscope : w = e.workflowId ∧ c = e.authorityRequested
  · obtain ⟨rfl, rfl⟩ := hscope
    have hleft (l : AutonomyLevel) :
        (Command.recordIncident a e.workflowId e.authorityRequested reason actorId).levelLeft e l =
          l.cappedAt .executeWithApproval := if_pos ⟨hid.symm.trans he.symm, rfl, rfl⟩
    cases hlevel : old.autonomyFor e.workflowId e.authorityRequested with
    | error err =>
      rw [hlevel] at hlevels
      exact (autonomyFor_congr hlevels _ _).trans hlevel
    | ok current =>
      rw [hlevel] at hlevels
      rw [autonomyFor_congr hlevels, AgentIdentity.autonomyFor_setAutonomy]
      exact congrArg Except.ok (hleft current).symm
  · have hleft (l : AutonomyLevel) :
        (Command.recordIncident a w c reason actorId).levelLeft e l = l :=
      if_neg fun h => hscope h.2
    have hsame : new.autonomyFor e.workflowId e.authorityRequested =
        old.autonomyFor e.workflowId e.authorityRequested := by
      split at hlevels
      · rw [autonomyFor_congr hlevels]
        unfold AgentIdentity.autonomyFor AgentIdentity.setAutonomy
        rw [Dict.get?_set_ne]
        exact fun heq => hscope (AgentIdentity.autonomyKey_injective heq)
      · exact autonomyFor_congr hlevels _ _
    rw [hsame]
    cases old.autonomyFor e.workflowId e.authorityRequested with
    | error err => rfl
    | ok l => exact congrArg Except.ok (hleft l).symm

/-- Where the agent of an incident is not registered, the others are as they were. -/
theorem agentsLeft_of_unknown {v : StoreView} (hkeyed : v.Keyed) (hnone : v.agents a = none)
    (i : String) :
    Option.Rel (AgentLeft (.recordIncident a w c reason actorId)) (v.agents i) (v.agents i) := by
  cases hagent : v.agents i with
  | none => exact .none
  | some agent =>
    refine .some (.refl fun e l he => levelLeft_recordIncident_of_ne ?_)
    rintro rfl
    rw [he, hkeyed i agent hagent, hagent] at hnone
    cases hnone

/-- Where agents are as they were, but for one. -/
theorem agentsLeft_of_incident {v v' : StoreView} (hkeyed : v.Keyed) (hold : v.agents a = some old)
    (hagents : ∀ i, v'.agents i = if i = a then some new else v.agents i)
    (hnew : AgentLeft (.recordIncident a w c reason actorId) old new) (i : String) :
    Option.Rel (AgentLeft (.recordIncident a w c reason actorId)) (v.agents i) (v'.agents i) := by
  rw [hagents]
  split
  · rename_i hi
    rw [hi, hold]
    exact .some hnew
  · rename_i hi
    cases hagent : v.agents i with
    | none => exact .none
    | some agent =>
      refine .some (.refl fun e l he => levelLeft_recordIncident_of_ne ?_)
      rw [he, hkeyed i agent hagent]
      exact hi

end

/-! ## What the commands do -/

section

variable {P : Primitives} {F : Type} {o : Oracle} {S C L : Type} [Store S] [LawfulStore S]
variable [OrderedStore S] [CapabilityStateStore C] [AuditLog L]
variable {keys : KeyPair P} {replica : Nat} {s : World S C L}

/-- A revocation writes the rule out of force, if there is one. -/
theorem tightenedBy_of_revoke {ruleId actorId : String} {reason : PyStr}
    (hkeyed : (view s.store).RulesKeyed) :
    (revokeDelegationRule ruleId actorId reason).Ensures (worldHandler o keys replica) s
      fun _ s' => TightenedBy (.revokeDelegationRule ruleId actorId reason) s.store s'.store := by
  have hagents (v : StoreView) (i : String) :
      Option.Rel (AgentLeft (.revokeDelegationRule ruleId actorId reason)) (v.agents i)
        (v.agents i) := by
    cases v.agents i with
    | none => exact .none
    | some agent => exact .some (.refl fun _ _ _ => rfl)
  unfold revokeDelegationRule
  rw [perform_bind, ensures_call]
  simp only [worldHandler]
  rw [getRule_eq]
  cases hrule : (view s.store).rules ruleId with
  | none =>
    refine ⟨List.forall₂_same.mpr fun r hr => ?_, rfl, hagents _⟩
    have hne : ¬ r.ruleId = ruleId := by
      rintro rfl
      rw [mem_rules, hrule] at hr
      cases hr
    simp [Command.takesOut, hne]
  | some rule =>
    dsimp only
    rw [perform_bind, ensures_call]
    simp only [worldHandler]
    obtain rfl : rule.ruleId = ruleId := hkeyed _ _ hrule
    have hmem : rule ∈ rules s.store := (mem_rules _ _).mpr hrule
    have htightened : TightenedBy (.revokeDelegationRule rule.ruleId actorId reason) s.store
        (addRule (deactivated rule reason) s.store) := by
      refine ⟨Deactivates.forall₂ (q := fun r => r.ruleId = rule.ruleId)
        (Deactivates.refl.addRule (List.mem_map.mpr ⟨rule, hmem, rfl⟩) ?_ rfl) ?_, ?_, ?_⟩
      · exact fun x _ hx => decide_eq_true hx
      · intro r hr hid
        rw [mem_rules, view_addRule, StoreView.rules_setRule, ruleId_kept] at hr
        have hid : r.ruleId = (deactivated rule reason).ruleId := of_decide_eq_true hid
        rw [if_pos hid, Option.some.injEq] at hr
        rw [← hr, ruleActive_kept]
        rfl
      · rw [view_addRule, StoreView.nonces_setRule]
      · rw [view_addRule, StoreView.agents_setRule]
        exact hagents _
    refine (ensures_of_uses (I := fun t => t.store = addRule (deactivated rule reason) s.store)
      (A := fun c => c.changesStore = false) ?_ ?_ rfl).mono fun _ t hstore => ?_
    · refine uses_bind (uses_revokeScope rfl) fun _ => ?_
      exact uses_bind (uses_ledgerAppend rfl) fun _ => trivial
    · intro op hop t hstore
      exact (store_worldHandler hop t).trans hstore
    · rw [hstore]
      exact htightened

variable {a w : String} {c : AuthorityClass} {reason : PyStr} {actorId : String}

/-- Rules of the scope are written out of force, each in its place. -/
theorem ensures_deactivates {s₀ : S} (pending : List DelegationRule)
    (hpending : ∀ r ∈ pending, r ∈ rules s₀ ∧ r.inScope a w c.value = true)
    (h : Deactivates (·.inScope a w c.value) s₀ s.store) :
    (deactivateRules reason pending).Ensures (worldHandler o keys replica) s
      fun _ s' => Deactivates (·.inScope a w c.value) s₀ s'.store := by
  induction pending generalizing s with
  | nil => exact h
  | cons rule rest ih =>
    obtain ⟨⟨hmem, hscope⟩, hrest⟩ := List.forall_mem_cons.mp hpending
    unfold deactivateRules
    split
    · rw [perform_bind, ensures_call, ensures_bind]
      simp only [worldHandler]
      refine (ih hrest (h.addRule ?_ ?_ ?_)).mono fun result s' hs' => ?_
      · exact List.mem_map.mpr ⟨rule, hmem, rfl⟩
      · -- the ids are distinct, so the place is that of the rule itself
        intro x hx hid
        rw [mem_rules] at hx hmem
        obtain rfl : x = rule := by
          rw [hid] at hx
          exact Option.some.inj (hx.symm.trans hmem)
        exact hscope
      · rfl
      · cases result with
        | ok ids => exact hs'
        | error err => exact hs'
    · exact ih hrest h

/-- With the agent lowered and its rules taken out of force, the incident has done its
part. -/
theorem tightenedBy_of_deactivateRules {s₀ : S} (hplaces : rules s.store = rules s₀)
    (hrules : (view s.store).rules = (view s₀).rules) (hkeyed : (view s₀).RulesKeyed)
    (hregistered : (getAgent a s₀).any (fun agent => (agent.autonomyFor w c).isOk) = true)
    (hnonces : (view s.store).nonces = (view s₀).nonces)
    (hagents : ∀ i, Option.Rel (AgentLeft (.recordIncident a w c reason actorId))
      ((view s₀).agents i) ((view s.store).agents i)) :
    (deactivateRules reason (rulesFor a w c.value s.store)).Ensures (worldHandler o keys replica) s
      fun _ s' => TightenedBy (.recordIncident a w c reason actorId) s₀ s'.store := by
  have hkeyed' : (view s.store).RulesKeyed := by
    unfold StoreView.RulesKeyed
    rw [hrules]
    exact hkeyed
  have hdeactivates : (deactivateRules reason (rulesFor a w c.value s.store)).Ensures
      (worldHandler o keys replica) s
      fun _ s' => Deactivates (·.inScope a w c.value) s₀ s'.store := by
    refine ensures_deactivates _ (fun r hr => ?_) ?_
    · rw [mem_rulesFor] at hr
      rw [← hplaces, mem_rules]
      exact hr
    · unfold Deactivates
      rw [hplaces]
      exact Deactivates.refl
  have hclosed : (deactivateRules reason (rulesFor a w c.value s.store)).Ensures
      (worldHandler o keys replica) s fun _ s' => RulesClosed (view s'.store) a w c := by
    refine ensures_closed_of_deactivateRules _ hkeyed' fun i r hr hscope _ => ?_
    rw [mem_rulesFor, hkeyed' i r hr]
    exact ⟨hr, hscope⟩
  have hrest : (deactivateRules reason (rulesFor a w c.value s.store)).Ensures
      (worldHandler o keys replica) s fun _ s' =>
        (view s'.store).agents = (view s.store).agents ∧
          (view s'.store).nonces = (view s.store).nonces := by
    refine ensures_of_uses (I := fun t : World S C L => (view t.store).agents = _ ∧
      (view t.store).nonces = _) (A := fun c => ∃ r, c = .addRule r)
      (uses_deactivateRules (fun r why => ⟨_, rfl⟩) _) ?_ ⟨rfl, rfl⟩
    rintro _ ⟨r, rfl⟩ t ht
    simp only [worldHandler, view_addRule, StoreView.agents_setRule, StoreView.nonces_setRule]
    exact ht
  refine (hdeactivates.and (hclosed.and hrest)).mono ?_
  rintro _ s' ⟨hdeactivates, hclosed, hsameAgents, hsameNonces⟩
  refine ⟨?_, hsameNonces.trans hnonces, ?_⟩
  · have hplaces := hdeactivates.forall₂
      fun r hr hscope => hclosed _ r ((mem_rules _ _).mp hr) hscope
    refine hplaces.imp fun r r' hr => ?_
    rwa [Command.takesOut, hregistered, Bool.and_true]
  · rw [hsameAgents]
    exact hagents

omit [OrderedStore S] in
/-- The count of an incident shows in the store or it does not. -/
theorem agents_touchAgent {t : S} {agent : AgentIdentity} (hold : (view t).agents a = some agent)
    (hid : agent.agentId = a) :
    ∃ new, (new = agent ∨ new = withIncident agent) ∧
      ∀ i, (view (touchAgent (withIncident agent) t)).agents i =
        if i = a then some new else (view t).agents i := by
  rcases view_touchAgent (withIncident agent) t with hsame | hset
  · refine ⟨agent, Or.inl rfl, fun i => ?_⟩
    rw [hsame]
    split
    · rename_i hi
      rw [hi, hold]
    · rfl
  · refine ⟨withIncident agent, Or.inr rfl, fun i => ?_⟩
    rw [hset, StoreView.agents_setAgent]
    rw [show (withIncident agent).agentId = a from hid]

variable (actorId) in
/-- The agent's level is lowered and its rules are out of force, or its level is not one
of the ladder and neither happens. -/
theorem tightenedBy_of_downgrade (hkeyed : (view s.store).Keyed)
    (hrules : (view s.store).RulesKeyed) :
    (downgrade a w c reason).Ensures (worldHandler o keys replica) s
      fun _ s' => TightenedBy (.recordIncident a w c reason actorId) s.store s'.store := by
  unfold downgrade
  rw [perform_bind, ensures_call]
  simp only [worldHandler]
  cases hagent : getAgent a s.store with
  | none =>
    refine ⟨List.forall₂_same.mpr fun r _ => ?_, rfl, ?_⟩
    · simp [Command.takesOut, hagent]
    · rw [getAgent_eq] at hagent
      exact agentsLeft_of_unknown hkeyed hagent
  | some agent =>
    dsimp only
    rw [perform_bind, ensures_call, ensures_bind, ensures_ofExcept]
    have hold := hagent
    rw [getAgent_eq] at hold
    have hid : agent.agentId = a := hkeyed a agent hold
    have hlevel : (withIncident agent).autonomyFor w c = agent.autonomyFor w c := rfl
    have hnonces : (view (touchAgent (withIncident agent) s.store)).nonces =
        (view s.store).nonces := by
      rcases view_touchAgent (withIncident agent) s.store with hsame | hset
      · rw [hsame]
      · rw [hset, StoreView.nonces_setAgent]
    rw [hlevel]
    simp only [worldHandler]
    cases hcurrent : agent.autonomyFor w c with
    | error err =>
      refine ⟨?_, hnonces, ?_⟩
      · rw [rules_touchAgent]
        refine List.forall₂_same.mpr fun r _ => ?_
        simp [Command.takesOut, hagent, hcurrent, Except.isOk, Except.toBool]
      · -- the count may show in the store, and the level stays what it was
        obtain ⟨new, hnew, hagents⟩ := agents_touchAgent hold hid
        refine agentsLeft_of_incident hkeyed hold hagents ?_
        rcases hnew with rfl | rfl
        · exact agentLeft_of_incident hid rfl rfl rfl (by rw [hcurrent])
        · exact agentLeft_of_incident hid rfl rfl rfl (by rw [hcurrent]; rfl)
    | ok current =>
      dsimp only
      rw [perform_bind, ensures_call, perform_bind, ensures_call]
      simp only [worldHandler]
      generalize hnew : (withIncident agent).setAutonomy w c
        (current.cappedAt .executeWithApproval) = new
      have hnewId : (keptAgent (S := S) new).agentId = a := by
        rw [agentId_kept, ← hnew]
        exact hid
      have hleft :
          AgentLeft (.recordIncident a w c reason actorId) agent (keptAgent (S := S) new) := by
        refine agentLeft_of_incident hid ?_ ?_ ?_ ?_
        · rw [publicKeyHex_kept, ← hnew]
          rfl
        · rw [approvedWorkflows_kept, ← hnew]
          rfl
        · rw [active_kept, ← hnew]
          rfl
        · rw [hcurrent, currentAutonomy_kept, ← hnew]
          rfl
      obtain ⟨_, _, hagents⟩ := agents_touchAgent hold hid
      refine tightenedBy_of_deactivateRules
        (s := { s with store := addAgent new (touchAgent (withIncident agent) s.store) })
        ?_ ?_ hrules ?_ ?_ ?_
      · rw [rules_addAgent, rules_touchAgent]
      · rw [view_addAgent, StoreView.rules_setAgent]
        rcases view_touchAgent (withIncident agent) s.store with hsame | hset
        · rw [hsame]
        · rw [hset, StoreView.rules_setAgent]
      · simp [hagent, hcurrent, Except.isOk, Except.toBool]
      · rw [view_addAgent, StoreView.nonces_setAgent, hnonces]
      · refine agentsLeft_of_incident hkeyed hold (fun i => ?_) hleft
        rw [view_addAgent, StoreView.agents_setAgent, hnewId, hagents]
        split <;> rfl

/-- The rest of an incident leaves the store. -/
theorem tightenedBy_of_incident [Arithmetic F] (hkeyed : (view s.store).Keyed)
    (hrules : (view s.store).RulesKeyed) :
    (recordIncident F a w c reason actorId).Ensures (worldHandler o keys replica) s
      fun _ s' => TightenedBy (.recordIncident a w c reason actorId) s.store s'.store := by
  unfold recordIncident
  rw [perform_bind, ensures_call, perform_bind, ensures_call, ensures_bind]
  generalize hcounted : (worldHandler o keys replica .countIncident
    (worldHandler o keys replica (.noteIncident a w c) s).2).2 = s₁
  have hsame : s₁.store = s.store := by
    rw [← hcounted]
    exact (store_worldHandler rfl _).trans (store_worldHandler rfl _)
  rw [← hsame] at hkeyed hrules ⊢
  refine (tightenedBy_of_downgrade actorId hkeyed hrules).mono fun result s' htightened => ?_
  cases result with
  | error err => exact htightened
  | ok ids =>
    -- the rest revokes tokens and writes to the ledger
    refine (ensures_of_uses (I := fun t => t.store = s'.store)
      (A := fun c => c.changesStore = false) ?_ ?_ rfl).mono fun _ t hstore => ?_
    · refine uses_bind (uses_revokeScope rfl) fun _ => ?_
      exact uses_bind (uses_ledgerAppend rfl) fun _ => trivial
    · intro op hop t hstore
      exact (store_worldHandler hop t).trans hstore
    · rw [hstore]
      exact htightened

/-- What a command that tightens does, whether or not it returns. -/
theorem tightenedBy_of_serve [Arithmetic F] {cp : ControlPlane P F} {x : CpTurn F S C L}
    (hserve : x = (cp.system o).serve x.before x.request) (htightens : x.request.2.tightens = true)
    (hkeyed : (view x.before.store).Keyed) (hrules : (view x.before.store).RulesKeyed) :
    TightenedBy x.request.2 x.before.store x.after.store := by
  obtain ⟨before, ⟨replica, cmd⟩, calls, result, after⟩ := x
  refine (cp.system o).of_ensures hserve
    (Q := fun _ s' => TightenedBy cmd before.store s'.store) ?_
  cases cmd with
  | revokeDelegationRule ruleId actorId reason =>
    have hrevoke : (revokeDelegationRule ruleId actorId reason).Ensures
        (worldHandler o cp.ledgerKeys replica) before fun _ s' =>
          TightenedBy (.revokeDelegationRule ruleId actorId reason) before.store s'.store :=
      tightenedBy_of_revoke hrules
    refine ensures_bind.mpr (hrevoke.mono fun r s' hs' => ?_)
    cases r <;> exact hs'
  | recordIncident a w c reason actorId =>
    have hincident : (recordIncident F a w c reason actorId).Ensures
        (worldHandler o cp.ledgerKeys replica) before fun _ s' =>
          TightenedBy (.recordIncident a w c reason actorId) before.store s'.store :=
      tightenedBy_of_incident hkeyed hrules
    refine ensures_bind.mpr (hincident.mono fun r s' hs' => ?_)
    cases r <;> exact hs'
  | _ => cases htightens

end

/-! ## Proposals around the command -/

section

variable {P : Primitives} {F : Type} (cp : ControlPlane P F) (o : Oracle)
variable {S C L : Type} [Store S] [LawfulStore S] [OrderedStore S]

/-- The command takes out the rule at which the search of the proposal stops, which holds
the event back, and what the search comes to next admits it. -/
def Exposes (w : World S C L) (cmd : Command) (e : WorkflowEvent) : Prop :=
  ∃ w₁ agent current r, Reaches cp o w e w₁ agent current ∧
    (rules w.store).find? (·.stops e) = some r ∧ cmd.takesOut w.store r = true ∧
    ¬ Admits cp o w₁ e agent current (some r) ∧
    Admits cp o w₁ e agent (cmd.levelLeft e current)
      ((rules w.store).find? fun r => r.stops e && !cmd.takesOut w.store r)

omit [LawfulStore S] [OrderedStore S] in
/-- The clock when a proposal of the event mints.  The registration of an unknown agent
reads it once. -/
def readsAtMint (w : World S C L) (e : WorkflowEvent) : Nat :=
  match getAgent e.agentId w.store with
  | some _ => w.reads
  | none => w.reads + 1

/-- A token of the event that expires within the calendar after the command would have
before it. -/
def ExpiresBefore (w w' : World S C L) (e : WorkflowEvent) : Prop :=
  ∀ status, cp.Expires o { w' with reads := readsAtMint w' e } status →
    cp.Expires o { w with reads := readsAtMint w e } status

variable {cp o} {w w' w₁ w₂ : World S C L} {cmd : Command} {e : WorkflowEvent}
variable {agent agent' : AgentIdentity} {current level : AutonomyLevel}
variable {rule? : Option DelegationRule}

omit [Store S] [LawfulStore S] [OrderedStore S] in
/-- What admits an event after the command would at its level before it. -/
theorem Admits.before (h : Admits cp o w₂ e agent' level rule?)
    (happroved : withApprovedWorkflows e agent' = withApprovedWorkflows e agent)
    (hexpires : ∀ status, cp.Expires o w₂ status → cp.Expires o w₁ status) :
    Admits cp o w₁ e agent level rule? := by
  obtain ⟨hcompares, ⟨fired, hguards, hperm, hexp⟩, hsignable⟩ := h
  rw [happroved] at hguards hperm hexp
  exact ⟨hcompares, ⟨fired, hguards, hperm, hexpires _ hexp⟩, hsignable⟩

omit [Store S] [LawfulStore S] [OrderedStore S] in
/-- Whether a token expires within the calendar depends on the clock alone. -/
theorem expires_congr {status : AutonomyStatus} (hreads : w₁.reads = w₂.reads) :
    cp.Expires o w₁ status ↔ cp.Expires o w₂ status := by
  unfold ControlPlane.Expires
  rw [hreads]

omit [LawfulStore S] [OrderedStore S] in
theorem reads_of_found (h : cp.found o w e = some (agent, w₁)) :
    w₁.reads = readsAtMint w e := by
  cases hagent : getAgent e.agentId w.store with
  | some known =>
    unfold ControlPlane.found at h
    unfold readsAtMint
    rw [hagent] at h ⊢
    cases h
    rfl
  | none =>
    unfold ControlPlane.found at h
    unfold readsAtMint
    rw [hagent] at h ⊢
    dsimp only at h ⊢
    split at h
    · cases h
    · cases h
      rfl

/-- The search after the command goes past the rules that it took out. -/
theorem find?_of_tightenedBy (h : TightenedBy cmd w.store w'.store) :
    (rules w'.store).find? (·.stops e) =
      (rules w.store).find? fun r => r.stops e && !cmd.takesOut w.store r := by
  refine Search.find?_eq_of_forall₂ (h.rules.imp fun r r' hr => ?_)
  split at hr
  · rename_i hout
    rw [hout, Bool.not_true, Bool.and_false]
    refine ⟨?_, nofun⟩
    simp [DelegationRule.stops, DelegationRule.matchesEvent, hr]
  · rename_i hout
    rw [hr, Bool.eq_false_iff.mpr hout, Bool.not_false, Bool.and_true]
    exact ⟨rfl, fun _ => rfl⟩

omit [Store S] [LawfulStore S] [OrderedStore S] in
/-- Who is authentic depends on the key and on whether the agent is active. -/
theorem authentic_congr (hactive : agent'.active = agent.active)
    (hkey : agent'.publicKeyHex = agent.publicKeyHex) (h : cp.Authentic agent' e) :
    cp.Authentic agent e := by
  refine ⟨hactive.symm.trans h.active, fun hstrict => ?_⟩
  obtain ⟨hpresent, hsigned⟩ := h.signed hstrict
  refine ⟨hpresent, ?_⟩
  unfold signedBy at hsigned ⊢
  rwa [hkey] at hsigned

/-- An agent that is not registered stands at the bottom of the ladder. -/
theorem levelLeft_observeOnly : cmd.levelLeft e .observeOnly = .observeOnly := by
  cases cmd with
  | recordIncident a w c reason actorId =>
    show (if a = e.agentId ∧ w = e.workflowId ∧ c = e.authorityRequested then
      AutonomyLevel.observeOnly else .observeOnly) = .observeOnly
    exact ite_self _
  | _ => rfl

/-- A command that tightens leaves an agent known or unknown, so a proposal mints no
earlier after it. -/
theorem readsAtMint_le (h : TightenedBy cmd w.store w'.store) (hreads : w.reads ≤ w'.reads)
    (e : WorkflowEvent) : readsAtMint w e ≤ readsAtMint w' e := by
  have hagents := h.agents e.agentId
  rw [← getAgent_eq, ← getAgent_eq] at hagents
  unfold readsAtMint
  generalize getAgent e.agentId w.store = old? at hagents ⊢
  generalize getAgent e.agentId w'.store = new? at hagents ⊢
  cases hagents with
  | none => exact Nat.succ_le_succ hreads
  | some _ => exact hreads

/-- A clock that does not go back and lifetimes that are not negative leave no token
that only expires within the calendar after the command. -/
theorem expiresBefore_of_steady (hsteady : o.Steady)
    (hallowed : 0 ≤ cp.config.allowedCapabilityTtlSeconds)
    (hsampled : 0 ≤ cp.config.sampledCapabilityTtlSeconds)
    (h : TightenedBy cmd w.store w'.store) (hreads : w.reads ≤ w'.reads) :
    ExpiresBefore cp o w w' e := by
  intro status hexpires hperm
  have hlifetime : 0 ≤ cp.ttlFor status := by
    unfold ControlPlane.ttlFor
    split
    · exact hallowed
    · exact hsampled
  have hclock := hsteady _ _ (readsAtMint_le h hreads e)
  have hshift := hexpires hperm
  rw [CapabilityService.exists_expiry_iff] at hshift ⊢
  exact DateTime.shift_isSome_of_le hclock hlifetime hshift

/-- A proposal that reaches the search after the command would have before it. -/
theorem Reaches.before (h : TightenedBy cmd w.store w'.store) (hkeyed : (view w.store).Keyed)
    (hreaches : Reaches cp o w' e w₂ agent' level) :
    ∃ w₁ agent current, Reaches cp o w e w₁ agent current ∧ level = cmd.levelLeft e current ∧
      withApprovedWorkflows e agent' = withApprovedWorkflows e agent := by
  obtain ⟨hfound, hauthentic, hfree, hclass, hlevel⟩ := hreaches
  rw [h.nonces] at hfree
  have hagents := h.agents e.agentId
  unfold ControlPlane.found at hfound
  rw [getAgent_eq] at hfound
  cases hold : (view w.store).agents e.agentId with
  | none =>
    rw [hold] at hagents
    generalize (view w'.store).agents e.agentId = new? at hagents hfound
    cases hagents
    dsimp only at hfound
    split at hfound
    · cases hfound
    · rename_i hstrict
      cases hfound
      let agent := autoRegistered e (isoformat (o.time w.reads))
      refine ⟨{ w with store := addAgent agent w.store, reads := w.reads + 1 }, agent, level,
        ⟨?_, ?_, hfree, hclass, hlevel⟩, ?_, rfl⟩
      · unfold ControlPlane.found
        rw [getAgent_eq, hold]
        exact if_neg hstrict
      · apply authentic_congr _ _ hauthentic
        · rfl
        · rfl
      · obtain rfl : AutonomyLevel.observeOnly = level := Except.ok.inj hlevel
        exact levelLeft_observeOnly.symm
  | some old =>
    rw [hold] at hagents
    generalize (view w'.store).agents e.agentId = new? at hagents hfound
    cases hagents with
    | some hleft =>
      cases hfound
      rw [hleft.level e (hkeyed _ _ hold).symm] at hlevel
      cases hcurrent : old.autonomyFor e.workflowId e.authorityRequested with
      | error err =>
        rw [hcurrent] at hlevel
        cases hlevel
      | ok current =>
        rw [hcurrent] at hlevel
        refine ⟨w, old, current, ⟨?_, ?_, hfree, hclass, hcurrent⟩,
          (Except.ok.inj hlevel).symm, ?_⟩
        · unfold ControlPlane.found
          rw [getAgent_eq, hold]
        · exact authentic_congr hleft.active hleft.publicKeyHex hauthentic
        · unfold withApprovedWorkflows
          rw [hleft.approvedWorkflows]

/-! ## Levels that are lowered -/

/-- An event that may proceed on the approval rung may proceed on every rung. -/
theorem rungStatus_of_executeWithApproval
    (hperm : (rungStatus e .executeWithApproval).permissive = true) (level' : AutonomyLevel) :
    rungStatus e level' = rungStatus e .executeWithApproval := by
  unfold rungStatus at hperm ⊢
  split at hperm
  · rename_i hprepares
    rw [if_pos hprepares, if_pos hprepares]
  · cases hperm

/-- A cap at the approval rung takes no event past it. -/
theorem rungStatus_cappedAt {ceiling : AutonomyLevel}
    (hperm : (rungStatus e ((level.cappedAt .executeWithApproval).cappedAt ceiling)).permissive =
      true) :
    rungStatus e (level.cappedAt ceiling) =
      rungStatus e ((level.cappedAt .executeWithApproval).cappedAt ceiling) := by
  have hvalue : ((level.cappedAt .executeWithApproval).cappedAt ceiling).value =
      min (min level.value AutonomyLevel.executeWithApproval.value) ceiling.value := by
    rw [AutonomyLevel.value_cappedAt, AutonomyLevel.value_cappedAt]
  by_cases hlow : min level.value ceiling.value ≤ AutonomyLevel.executeWithApproval.value
  · have hsame :
        (level.cappedAt .executeWithApproval).cappedAt ceiling = level.cappedAt ceiling := by
      apply AutonomyLevel.value_injective
      rw [hvalue, AutonomyLevel.value_cappedAt]
      omega
    rw [hsame]
  · have happroval : (level.cappedAt .executeWithApproval).cappedAt ceiling =
        .executeWithApproval := by
      apply AutonomyLevel.value_injective
      rw [hvalue]
      omega
    rw [happroval] at hperm ⊢
    exact rungStatus_of_executeWithApproval hperm _

omit [Store S] [LawfulStore S] [OrderedStore S] in
/-- Without a rule, what admits an event at a lowered level admits it at the level before. -/
theorem Admits.raised (h : Admits cp o w e agent (current.cappedAt .executeWithApproval) none) :
    Admits cp o w e agent current none := by
  obtain ⟨hcompares, ⟨fired, hguards, hperm, hexpires⟩, hsignable⟩ := h
  have hnone (level : AutonomyLevel) :
      ruleGuards cp.policyEngine (withApprovedWorkflows e agent) level none = .ok [] := by
    unfold ruleGuards
    split
    · rename_i hgrant
      cases hgrant
    · rfl
  obtain rfl : [] = fired := Except.ok.inj ((hnone _).symm.trans hguards)
  have hsame : ruleStatus cp.policyEngine (withApprovedWorkflows e agent) current none [] =
      ruleStatus cp.policyEngine (withApprovedWorkflows e agent)
        (current.cappedAt .executeWithApproval) none [] := by
    unfold ruleStatus at hperm ⊢
    cases hbound : cp.policyEngine.boundary? (withApprovedWorkflows e agent) with
    | some b => rfl
    | none =>
      rw [hbound] at hperm
      exact rungStatus_cappedAt hperm
  refine ⟨hcompares, ⟨[], hnone _, ?_, ?_⟩, hsignable⟩
  · rw [hsame]
    exact hperm
  · rw [hsame]
    exact hexpires

/-- A rule at which the search stops is one of the scope of the event. -/
theorem inScope_of_stops {r : DelegationRule} (h : r.stops e = true) :
    r.inScope e.agentId e.workflowId e.authorityRequested.value = true := by
  by_contra hscope
  rw [DelegationRule.stops, matchesEvent_of_not_inScope (Bool.eq_false_iff.mpr hscope)] at h
  cases h

theorem levelLeft_of_ne (h : cmd.levelLeft e current ≠ current) :
    cmd.levelLeft e current = current.cappedAt .executeWithApproval := by
  cases cmd with
  | recordIncident a wf c reason actorId =>
    apply if_pos
    by_contra hscope
    exact h (if_neg hscope)
  | _ => exact absurd rfl h

/-- Where the level is lowered, no rule of the event is left. -/
theorem find?_of_levelLeft_ne (hreaches : Reaches cp o w e w₁ agent current)
    (hlowered : cmd.levelLeft e current ≠ current) :
    (rules w.store).find? (fun r => r.stops e && !cmd.takesOut w.store r) = none := by
  cases cmd with
  | recordIncident a wf c reason actorId =>
    have hscope : a = e.agentId ∧ wf = e.workflowId ∧ c = e.authorityRequested := by
      by_contra hscope
      exact hlowered (if_neg hscope)
    obtain ⟨rfl, rfl, rfl⟩ := hscope
    have hregistered : ((getAgent e.agentId w.store).any fun agent =>
        (agent.autonomyFor e.workflowId e.authorityRequested).isOk) = true := by
      have hfound := hreaches.found
      unfold ControlPlane.found at hfound
      cases hagent : getAgent e.agentId w.store with
      | some known =>
        rw [hagent] at hfound
        cases hfound
        rw [Option.any_some, hreaches.level]
        rfl
      | none =>
        -- an agent that is not registered has no level to lower
        rw [hagent] at hfound
        dsimp only at hfound
        split at hfound
        · cases hfound
        · cases hfound
          obtain rfl : AutonomyLevel.observeOnly = current := Except.ok.inj hreaches.level
          exact absurd levelLeft_observeOnly hlowered
    rw [List.find?_eq_none]
    intro r _ hstops
    rw [Bool.and_eq_true, Bool.not_eq_true', Command.takesOut, hregistered, Bool.and_true] at hstops
    rw [inScope_of_stops hstops.1] at hstops
    cases hstops.2
  | _ => exact absurd rfl hlowered

variable [CapabilityStateStore C] [AuditLog L] [Arithmetic F]

/-- A command that tightens leaves an event without a token that had none before, where it
does not expose it. -/
theorem not_issues_of_tightenedBy (h : TightenedBy cmd w.store w'.store)
    (hkeyed : (view w.store).Keyed) (hexposes : ¬ Exposes cp o w cmd e)
    (hclock : ExpiresBefore cp o w w' e) (replica : Nat)
    (hbefore : ¬ Issues ((cp.system o).serve w (replica, .proposeEvent e))) :
    ¬ Issues ((cp.system o).serve w' (replica, .proposeEvent e)) := by
  rw [issues_iff_admits] at hbefore ⊢
  rintro ⟨w₂, agent', level, hreaches', hadmits'⟩
  obtain ⟨w₁, agent, current, hreaches, rfl, happroved⟩ := hreaches'.before h hkeyed
  have hadmits : Admits cp o w₁ e agent (cmd.levelLeft e current) _ :=
    hadmits'.before happroved fun status hexpires =>
      (expires_congr (reads_of_found hreaches.found)).mpr
        (hclock status ((expires_congr (reads_of_found hreaches'.found)).mp hexpires))
  rw [find?_of_tightenedBy h] at hadmits
  apply hbefore
  refine ⟨w₁, agent, current, hreaches, ?_⟩
  by_cases hout : ∃ r, (rules w.store).find? (·.stops e) = some r ∧
      cmd.takesOut w.store r = true
  · obtain ⟨r, hstop, hout⟩ := hout
    by_contra hnot
    rw [hstop] at hnot
    exact hexposes ⟨w₁, agent, current, r, hreaches, hstop, hout, hnot, hadmits⟩
  · have hsame : (rules w.store).find? (fun r => r.stops e && !cmd.takesOut w.store r) =
        (rules w.store).find? (·.stops e) := by
      refine Search.find?_skip_eq fun r hstop => ?_
      rw [Bool.eq_false_iff]
      exact fun htrue => hout ⟨r, hstop, htrue⟩
    by_cases hlevel : cmd.levelLeft e current = current
    · rwa [hsame, hlevel] at hadmits
    · -- the level was lowered, and the rules of the event went with it
      have hnone := find?_of_levelLeft_ne hreaches hlevel
      rw [hnone] at hsame hadmits
      rw [levelLeft_of_ne hlevel] at hadmits
      rw [← hsame]
      exact hadmits.raised

omit [CapabilityStateStore C] [AuditLog L] [Arithmetic F] in
/-- A command that keeps the rule at which the search stops exposes nothing. -/
theorem not_exposes_of_kept
    (h : ((rules w.store).find? (·.stops e)).any (cmd.takesOut w.store) = false) :
    ¬ Exposes cp o w cmd e := by
  rintro ⟨_, _, _, r, _, hstop, hout, _⟩
  rw [hstop, Option.any_some, hout] at h
  cases h

omit [CapabilityStateStore C] [AuditLog L] [Arithmetic F] in
/-- A command that leaves no rule exposes nothing where the event is held back without
one. -/
theorem not_exposes_of_held
    (hnone : ((rules w.store).find? fun r => r.stops e && !cmd.takesOut w.store r).isNone = true)
    (hheld : ∀ agent current fired, (ruleStatus cp.policyEngine (withApprovedWorkflows e agent)
      (cmd.levelLeft e current) none fired).permissive = false) :
    ¬ Exposes cp o w cmd e := by
  rintro ⟨_, agent, current, _, _, _, _, _, hadmits⟩
  rw [Option.isNone_iff_eq_none.mp hnone] at hadmits
  obtain ⟨fired, _, hperm, _⟩ := hadmits.clear
  rw [hheld agent current fired] at hperm
  cases hperm

/-- In every run with such a clock and such lifetimes, the calendar is no condition. -/
theorem expiresBefore_of_runs {turns : List (CpTurn F S C L)} {s : World S C L}
    (hrun : (cp.system o).Runs (World.initial S C L) turns s) {i : Nat} {x : CpTurn F S C L}
    (hx : turns[i]? = some x) (htightens : x.request.2.tightens = true) (hsteady : o.Steady)
    (hallowed : 0 ≤ cp.config.allowedCapabilityTtlSeconds)
    (hsampled : 0 ≤ cp.config.sampledCapabilityTtlSeconds) (e : WorkflowEvent) :
    ExpiresBefore cp o x.before x.after e := by
  obtain ⟨hbeforehand, hserve, _⟩ := hrun.getElem? hx
  obtain ⟨hkeyed, hrules⟩ := keyed_of_runs hbeforehand
  have hreads : x.before.reads ≤ x.after.reads :=
    (hrun.answers hx).invariant (I := fun u => x.before.reads ≤ u.reads)
      (fun c _ u hu => hu.trans (reads_le_worldHandler c.1 u)) (Nat.le_refl _)
  exact expiresBefore_of_steady hsteady hallowed hsampled
    (tightenedBy_of_serve hserve htightens hkeyed hrules) hreads

/-- In every run, a command that tightens loosens nothing that it does not expose. -/
theorem tightening_tightens {turns : List (CpTurn F S C L)} {s : World S C L}
    (hrun : (cp.system o).Runs (World.initial S C L) turns s) {i : Nat} {x : CpTurn F S C L}
    (hx : turns[i]? = some x) (htightens : x.request.2.tightens = true) (e : WorkflowEvent)
    (hexposes : ¬ Exposes cp o x.before x.request.2 e)
    (hclock : ExpiresBefore cp o x.before x.after e) (replica : Nat)
    (hbefore : ¬ Issues ((cp.system o).serve x.before (replica, .proposeEvent e))) :
    ¬ Issues ((cp.system o).serve x.after (replica, .proposeEvent e)) := by
  obtain ⟨hbeforehand, hserve, _⟩ := hrun.getElem? hx
  obtain ⟨hkeyed, hrules⟩ := keyed_of_runs hbeforehand
  exact not_issues_of_tightenedBy (tightenedBy_of_serve hserve htightens hkeyed hrules) hkeyed
    hexposes hclock replica hbefore

end

/-! ## Two commands that loosen -/

/-- A rule on the approval rung in front of one on the sampling rung. -/
def stricterFirst : List (Nat × Command) := [
  (0, .registerAgent demoAgent),
  (0, .approveDelegationRule (demoRule .modifyInternalRecord .executeWithApproval) "approver"
    none),
  (0, .approveDelegationRule
    { demoRule .modifyInternalRecord .executeWithSampling with ruleId := "rule_2" } "approver"
    none)]

/-- One of the two rules is revoked. -/
def revocationDemo (ruleId : String) : List (Nat × Command) :=
  stricterFirst ++ [(0, .revokeDelegationRule ruleId "operator" "no longer used")]

/-- An incident takes out the first rule, which is the only one. -/
def incidentDemo : List (Nat × Command) :=
  stricterFirst.take 2 ++
    [(0, .recordIncident "agent" "claims" .modifyInternalRecord "wrong record" "operator")]

/-- The revocation of the stricter rule leaves the other one, which lets the action run.
The incident leaves no rule, and without one the agent may prepare what needed an
approval under its rule. -/
theorem revocation_and_incident_loosen :
    (∃ turns s, ∃ i : Nat, ∃ x e,
      demoSystem.Runs (World.initial _ _ _) turns s ∧ turns[i]? = some x ∧
      (∃ ruleId actorId reason, x.request.2 = .revokeDelegationRule ruleId actorId reason) ∧
      ¬ Issues (demoSystem.serve x.before (0, .proposeEvent e)) ∧
      Issues (demoSystem.serve x.after (0, .proposeEvent e))) ∧
    ∃ turns s, ∃ i : Nat, ∃ x e,
      demoSystem.Runs (World.initial _ _ _) turns s ∧ turns[i]? = some x ∧
      (∃ a w c reason actorId, x.request.2 = .recordIncident a w c reason actorId) ∧
      ¬ Issues (demoSystem.serve x.before (0, .proposeEvent e)) ∧
      Issues (demoSystem.serve x.after (0, .proposeEvent e)) := by
  constructor
  · exact ⟨_, _, 3, _, demoEvent true,
      runs_history (S := demoSystem) (World.initial _ _ _) (revocationDemo "rule_1"), rfl,
      ⟨_, _, _, rfl⟩, by decide +kernel, by decide +kernel⟩
  · exact ⟨_, _, 2, _, demoEvent false,
      runs_history (S := demoSystem) (World.initial _ _ _) incidentDemo, rfl,
      ⟨_, _, _, _, _, rfl⟩, by decide +kernel, by decide +kernel⟩

/-- A clock that moves on by a minute from one reading to the next, for an hour. -/
def risingClock (n : Nat) : DateTime := demoMinute 12 (min n 59)

theorem risingClock_steady : (demoOracle risingClock).Steady := by
  intro m n h
  show demoMinute 12 (min m 59) ≤ demoMinute 12 (min n 59)
  rcases (show min m 59 ≤ min n 59 by omega).lt_or_eq with hlt | heq
  · apply le_of_lt
    rw [DateTime.lt_iff_key]
    simp only [DateTime.key, demoMinute, List.cons_lt_cons_iff, lt_irrefl, false_or, true_and]
    left
    omega
  · rw [heq]

/-- The control plane under that clock. -/
abbrev risingSystem : Service PyError (Nat × Command) Res (Answer Dyadic) SqlWorld :=
  demoPlane.system (demoOracle risingClock)

/-- The revocation of the rule behind the stricter one exposes nothing, and neither does
the incident for an event that is to be executed.  The clock moves on meanwhile. -/
theorem revocation_behind_tightens :
    (∃ x, (risingSystem.history (World.initial _ _ _) (revocationDemo "rule_2"))[3]? = some x ∧
      x.request.2 = .revokeDelegationRule "rule_2" "operator" "no longer used" ∧
      risingClock x.before.reads < risingClock x.after.reads ∧
      ¬ Issues (risingSystem.serve x.after (0, .proposeEvent (demoEvent true)))) ∧
    ∃ x, (risingSystem.history (World.initial _ _ _) incidentDemo)[2]? = some x ∧
      x.request.2 =
        .recordIncident "agent" "claims" .modifyInternalRecord "wrong record" "operator" ∧
      risingClock x.before.reads < risingClock x.after.reads ∧
      ¬ Issues (risingSystem.serve x.after (0, .proposeEvent (demoEvent true))) := by
  constructor
  · have hrun := runs_history (S := risingSystem) (World.initial _ _ _) (revocationDemo "rule_2")
    refine ⟨_, rfl, rfl, by decide +kernel, ?_⟩
    refine tightening_tightens hrun (i := 3) rfl rfl (demoEvent true) ?_
      (expiresBefore_of_runs hrun (i := 3) rfl rfl risingClock_steady (by decide) (by decide) _) 0
      (by decide +kernel)
    exact not_exposes_of_kept (by decide +kernel)
  · have hrun := runs_history (S := risingSystem) (World.initial _ _ _) incidentDemo
    refine ⟨_, rfl, rfl, by decide +kernel, ?_⟩
    refine tightening_tightens hrun (i := 2) rfl rfl (demoEvent true) ?_
      (expiresBefore_of_runs hrun (i := 2) rfl rfl risingClock_steady (by decide) (by decide) _) 0
      (by decide +kernel)
    refine not_exposes_of_held (by decide +kernel) fun agent current fired => ?_
    -- without a rule the lowered agent executes nothing
    show (ruleStatus _ _ (current.cappedAt .executeWithApproval) none fired).permissive = false
    cases fired <;> cases current <;> rfl

end EarnedAutonomy
