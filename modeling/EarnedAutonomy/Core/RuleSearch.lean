import EarnedAutonomy.Core.Proposals
import EarnedAutonomy.Core.ExecutionPolicy
import EarnedAutonomy.Lib.Search

/-!
# The search for a rule

`propose_event` uses the first rule that matches, in the order in which the store goes
through its rules.

* `firstMatch_eq`: the search stops at the first rule that matches or cannot be compared.
* `OrderedStore` is a store with the order of its rules.
* `ruleGuards` and `ruleStatus` are what the policy makes of a rule, from its fields.
  `decidedBy_of_evaluate` and `evaluate_of_guards` say when it answers, and that the
  answer is this one.
* `matchingRule_eq_ok_iff`: the rule that a proposal finds.
-/

namespace EarnedAutonomy

open OrderedDict Store LawfulStore

/-! ## Where the search stops -/

namespace DelegationRule

/-- The search stops at this rule: it matches, or the comparison raises. -/
def stops (e : WorkflowEvent) (r : DelegationRule) : Bool :=
  match r.matchesEvent e with
  | .ok matched => matched
  | .error _ => true

/-- What a search that stops at this rule is answered with. -/
def stopped (e : WorkflowEvent) (r : DelegationRule) : Except PyError (Option DelegationRule) :=
  (r.matchesEvent e).map fun _ => some r

end DelegationRule

/-- What a search is answered with, from where it stops. -/
def searched (e : WorkflowEvent) : Option DelegationRule → Except PyError (Option DelegationRule)
  | none => .ok none
  | some r => r.stopped e

theorem firstMatch_eq (e : WorkflowEvent) (rules : List DelegationRule) :
    firstMatch e rules = searched e (rules.find? (·.stops e)) := by
  induction rules with
  | nil => rfl
  | cons r rest ih =>
    unfold firstMatch
    cases hmatch : r.matchesEvent e with
    | error err =>
      have hstop : r.stops e = true := by simp [DelegationRule.stops, hmatch]
      rw [List.find?_cons_of_pos hstop, searched, DelegationRule.stopped, hmatch]
      rfl
    | ok matched =>
      cases matched with
      | true =>
        have hstop : r.stops e = true := by simp [DelegationRule.stops, hmatch]
        rw [List.find?_cons_of_pos hstop, searched, DelegationRule.stopped, hmatch]
        rfl
      | false =>
        have hstop : ¬ r.stops e = true := by simp [DelegationRule.stops, hmatch]
        rw [List.find?_cons_of_neg hstop, ← ih]
        rfl

/-! ## Stores with an order -/

/-- A store goes through its rules in some order, and another store may hold the same in
any other. -/
class OrderedStore (S : Type) [Store S] [LawfulStore S] where
  rules : S → List DelegationRule
  matchingRule_eq : ∀ e s, matchingRule e s = firstMatch e (rules s)
  mem_rules : ∀ r s, r ∈ rules s ↔ (view s).rules r.ruleId = some r
  nodup_rules : ∀ s, ((rules s).map (·.ruleId)).Nodup
  rules_addAgent : ∀ a s, rules (addAgent a s) = rules s
  rules_touchAgent : ∀ a s, rules (touchAgent a s) = rules s
  /-- A known rule is replaced in its place. -/
  rules_addRule : ∀ r s, (view s).rules r.ruleId ≠ none →
    rules (addRule r s) =
      (rules s).map fun x => if x.ruleId = r.ruleId then keptRule (S := S) r else x
  approvedWorkflows_kept : ∀ a, (keptAgent (S := S) a).approvedWorkflows = a.approvedWorkflows
  exists_reordered : ∀ s rs, rs.Perm (rules s) → ∃ s', view s' = view s ∧ rules s' = rs

/-- The same rows in another order. -/
private theorem exists_reordered_dict {d : Dict String DelegationRule}
    (hd : (d.map Prod.fst).Nodup) (hkeyed : ∀ e ∈ d, e.2.ruleId = e.1)
    {rs : List DelegationRule} (hrs : rs.Perm (d.map Prod.snd)) :
    ∃ d' : Dict String DelegationRule, (d'.map Prod.fst).Nodup ∧ (∀ e ∈ d', e.2.ruleId = e.1) ∧
      d'.map Prod.snd = rs ∧ ∀ i, Dict.get? d' i = Dict.get? d i := by
  let d' : Dict String DelegationRule := rs.map fun r => (r.ruleId, r)
  have hself : (d.map Prod.snd).map (fun r => (r.ruleId, r)) = d := by
    rw [List.map_map]
    refine (List.map_congr_left fun e he => ?_).trans (List.map_id d)
    exact Prod.ext (hkeyed e he) rfl
  have hperm : d'.Perm d := by
    have hmapped := hrs.map fun r : DelegationRule => (r.ruleId, r)
    rwa [hself] at hmapped
  refine ⟨d', (hperm.map Prod.fst).nodup_iff.mpr hd, ?_, ?_, Dict.get?_perm hd hperm⟩
  · exact fun e he => hkeyed e (hperm.mem_iff.mp he)
  · rw [List.map_map]
    exact List.map_id rs

/-- The values of a table whose rows are keyed by their ids. -/
private theorem nodup_values {d : Dict String DelegationRule} (hd : (d.map Prod.fst).Nodup)
    (hkeyed : ∀ e ∈ d, e.2.ruleId = e.1) : ((d.map Prod.snd).map (·.ruleId)).Nodup := by
  rw [List.map_map]
  have hfst : d.map ((·.ruleId) ∘ Prod.snd) = d.map Prod.fst := List.map_congr_left hkeyed
  rwa [hfst]

/-- A row that is there is written in its place. -/
private theorem values_set {d : Dict String DelegationRule} (hd : (d.map Prod.fst).Nodup)
    (hkeyed : ∀ e ∈ d, e.2.ruleId = e.1) {i : String} (hi : Dict.get? d i ≠ none)
    (r : DelegationRule) :
    (Dict.set d i r).map Prod.snd =
      (d.map Prod.snd).map fun x => if x.ruleId = i then r else x := by
  have hmem : i ∈ d.map Prod.fst := by
    rw [ne_eq, Dict.get?_eq_none_iff, not_not] at hi
    exact hi
  rw [Dict.set_eq_map hd hmem, List.map_map, List.map_map]
  refine List.map_congr_left fun e he => ?_
  show (if e.1 = i then (i, r) else e).2 = if e.2.ruleId = i then r else e.2
  rw [hkeyed e he]
  split <;> rfl

instance : OrderedStore InMemoryStore where
  rules s := s.rules.map Prod.snd
  matchingRule_eq _ _ := rfl
  mem_rules _ s := mem_rules_iff s.nodup s.keyed
  nodup_rules s := nodup_values s.nodup s.keyed
  rules_addAgent _ _ := rfl
  rules_touchAgent _ _ := rfl
  rules_addRule r s hr := values_set s.nodup s.keyed hr r
  approvedWorkflows_kept _ := rfl
  exists_reordered s rs hrs := by
    obtain ⟨d', hd', hkeyed', hrules, hget⟩ := exists_reordered_dict s.nodup s.keyed hrs
    exact ⟨{ s with rules := d', nodup := hd', keyed := hkeyed' },
      StoreView.ext rfl rfl (funext hget) rfl, hrules⟩

instance : OrderedStore SqlStore where
  rules s := s.rules.map Prod.snd
  matchingRule_eq e s := firstMatch_filter_inScope e _
  mem_rules _ s := mem_rules_iff s.nodup s.keyed
  nodup_rules s := nodup_values s.nodup s.keyed
  rules_addAgent _ _ := rfl
  rules_touchAgent _ _ := rfl
  rules_addRule r s hr := values_set s.nodup s.keyed hr (columnRule r)
  approvedWorkflows_kept _ := rfl
  exists_reordered s rs hrs := by
    obtain ⟨d', hd', hkeyed', hrules, hget⟩ := exists_reordered_dict s.nodup s.keyed hrs
    exact ⟨{ s with rules := d', nodup := hd', keyed := hkeyed' },
      StoreView.ext rfl rfl (funext hget) rfl, hrules⟩

/-! ## What the policy makes of a rule -/

/-- What a rung means for an event. -/
def rungStatus (e : WorkflowEvent) (level : AutonomyLevel) : AutonomyStatus :=
  if isNonState e.authorityRequested && !e.requiresExecution then .allowed
  else match level with
    | .observeOnly | .suggest | .draft =>
        if e.requiresExecution then .approvalRequired else .allowed
    | .executeWithApproval => .approvalRequired
    | .executeWithSampling => .sampleReview
    | .conditionalAutonomy => .allowed
    | .exceptionBasedSupervision | .delegatedAuthority =>
        if (e.meta? "anomaly").isTrue then .escalate else .allowed

theorem status_statusForLevel (e : WorkflowEvent) (effective : AutonomyLevel) (risk : RiskLevel)
    (consequences : List ConsequenceClass) (policyName : Option PyStr) (ceiling : AutonomyLevel)
    (clamped : Bool) (rule? : Option DelegationRule) :
    (statusForLevel e effective risk consequences policyName ceiling clamped rule?).status =
      rungStatus e effective := by
  cases effective <;> cases hn : isNonState e.authorityRequested <;>
    cases hx : e.requiresExecution <;> cases ha : (e.meta? "anomaly").isTrue <;>
    simp [statusForLevel, rungStatus, AutonomyLevel.value, hn, hx, ha]

/-- The boundary rule that decides, if any. -/
def PolicyEngine.boundary? (engine : PolicyEngine) (e : WorkflowEvent) : Option BoundaryRule :=
  engine.boundaryRules.find? (·.matchesEvent e)

/-- The guards that are evaluated: past the boundary rules, those of the rule that grants
the level. -/
def ruleGuards (engine : PolicyEngine) (e : WorkflowEvent) (current : AutonomyLevel)
    (rule? : Option DelegationRule) : Except PyError (List String) :=
  match engine.boundary? e, grantingRule current rule? with
  | none, some r => evaluateGuards r.requiresApprovalIf e
  | _, _ => .ok []

/-- The status of an event, where these guards fire. -/
def ruleStatus (engine : PolicyEngine) (e : WorkflowEvent) (current : AutonomyLevel)
    (rule? : Option DelegationRule) (fired : List String) : AutonomyStatus :=
  match engine.boundary? e with
  | some b => b.status
  | none =>
      if fired.isEmpty then rungStatus e (effectiveLevel e.authorityRequested current rule?)
      else .approvalRequired

section

variable {engine : PolicyEngine} {e : WorkflowEvent} {current : AutonomyLevel}
variable {consequences : List ConsequenceClass} {risk : RiskLevel}
variable {rule? : Option DelegationRule} {d : PolicyDecision}

/-- The texts of a boundary rule that go into its decision can be written. -/
def BoundaryRule.Writable (b : BoundaryRule) : Prop :=
  b.reason.isUtf8 = true ∧ b.name.isUtf8 = true ∧ ∀ t ∈ b.requiredApproverRole, t.isUtf8 = true

/-- The decision about an event for which these guards fire. -/
structure DecidedBy (engine : PolicyEngine) (e : WorkflowEvent) (current : AutonomyLevel)
    (rule? : Option DelegationRule) (fired : List String) (d : PolicyDecision) : Prop where
  status : d.status = ruleStatus engine e current rule? fired
  guards : d.triggeredGuards = fired
  encodable : (∀ r ∈ rule?, r.toDict.Encodable) →
    (d.toDict.Encodable ↔ ∀ b ∈ engine.boundary? e, b.Writable)

theorem isFinite_max {a b : PyFloat} (ha : a.isFinite = true) (hb : b.isFinite = true) :
    (a.max b).isFinite = true := by
  unfold PyFloat.max
  split
  · exact hb
  · exact ha

/-- The decisions of the rungs differ in the status, the reason and the rate only, and the rate
is a number if that of the rule is. -/
theorem statusForLevel_eq (effective : AutonomyLevel) (policyName : Option PyStr)
    (ceiling : AutonomyLevel) (clamped : Bool) :
    ∃ status reason, ∃ rate : PyFloat,
      ((∀ r ∈ rule?, r.sampleRate.isFinite = true) → rate.isFinite = true) ∧
      statusForLevel e effective risk consequences policyName ceiling clamped rule? =
        { status := status
          riskLevel := risk
          consequenceClasses := consequences
          reason := .utf8 reason
          policyName := policyName
          sampleRate := rate
          autonomyCeiling := some ceiling.value } := by
  have hdefault {sample : PyFloat} (hsample : sample.isFinite = true) :
      (if sample.truthy then sample else defaultSampleRate).isFinite = true := by
    split
    · exact hsample
    · rfl
  by_cases hread : isNonState e.authorityRequested = true ∧ e.requiresExecution = false ∧
      AutonomyLevel.observeOnly.value ≤ effective.value
  · exact ⟨_, _, _, fun _ => rfl, if_pos hread⟩
  · unfold statusForLevel
    rw [if_neg hread]
    cases rule? <;> cases effective <;> cases (e.meta? "anomaly").isTrue <;>
      cases e.requiresExecution
    all_goals first
      | exact ⟨_, _, _, fun _ => rfl, rfl⟩
      | exact ⟨_, _, _, fun hrate => hdefault (hrate _ rfl), rfl⟩
      | exact ⟨_, _, _, fun hrate => isFinite_max (hrate _ rfl) rfl, rfl⟩

/-- No guard fires on a rung. -/
theorem triggeredGuards_statusForLevel (effective : AutonomyLevel) (policyName : Option PyStr)
    (ceiling : AutonomyLevel) (clamped : Bool) :
    (statusForLevel e effective risk consequences policyName ceiling clamped
      rule?).triggeredGuards = [] := by
  obtain ⟨_, _, _, -, heq⟩ := statusForLevel_eq effective policyName ceiling clamped
  rw [heq]

/-- The decision of a rung can be written if the name and the rate of its rule can. -/
theorem encodable_statusForLevel {policyName : Option PyStr}
    (hname : ∀ t ∈ policyName, t.isUtf8 = true)
    (hrate : ∀ r ∈ rule?, r.sampleRate.isFinite = true) (effective ceiling : AutonomyLevel)
    (clamped : Bool) :
    (statusForLevel e effective risk consequences policyName ceiling clamped
      rule?).toDict.Encodable := by
  obtain ⟨_, _, rate, hfinite, heq⟩ := statusForLevel_eq effective policyName ceiling clamped
  rw [heq, PolicyDecision.encodable_toDict]
  exact ⟨rfl, hname, by simp, hfinite hrate⟩

theorem DelegationRule.encodable_entry {r : DelegationRule} (h : r.toDict.Encodable) {k : PyKey}
    {v : PyVal} (hv : (k, v) ∈ r.entries) : v.Encodable := by
  rw [DelegationRule.toDict, encodable_of_textKeys rfl] at h
  exact h _ hv

theorem mem_of_grantingRule {r : DelegationRule} (h : grantingRule current rule? = some r) :
    r ∈ rule? := by
  unfold grantingRule at h
  split at h
  · split at h
    · exact h
    · cases h
  · cases h

variable (engine e current consequences risk rule?) in
/-- The policy answers unless a guard raises, and with the status of these guards. -/
theorem evaluate_spec :
    match ruleGuards engine e current rule? with
    | .ok fired => ∃ d, engine.evaluate e current consequences risk rule? = .ok d ∧
        DecidedBy engine e current rule? fired d
    | .error err => engine.evaluate e current consequences risk rule? = .error err := by
  unfold ruleGuards PolicyEngine.evaluate
  have hboundary : engine.boundary? e = engine.boundaryRules.find? (·.matchesEvent e) := rfl
  rw [← hboundary]
  cases hbound : engine.boundary? e with
  | some b =>
    refine ⟨_, rfl, ?_, rfl, fun _ => ?_⟩
    · rw [ruleStatus, hbound]
    · rw [hbound, PolicyDecision.encodable_toDict]
      have hzero : (PyFloat.fin 0).isFinite = true := rfl
      simp [BoundaryRule.Writable, hzero]
  | none =>
    have hwritable : ∀ b ∈ engine.boundary? e, b.Writable := by
      rw [hbound]
      exact fun _ h => nomatch h
    have hrate (hrule : ∀ r ∈ rule?, r.toDict.Encodable) : ∀ r ∈ rule?,
        r.sampleRate.isFinite = true := fun r hr =>
      encodable_float.mp (DelegationRule.encodable_entry (k := "sample_rate") (hrule r hr)
        (by simp [DelegationRule.entries]))
    cases hgrant : grantingRule current rule? with
    | none =>
      refine ⟨_, rfl, ?_, triggeredGuards_statusForLevel _ _ _ _, fun hrule => ?_⟩
      · rw [status_statusForLevel, ruleStatus, hbound]
        rfl
      · exact iff_of_true (encodable_statusForLevel (by simp) (hrate hrule) _ _ _) hwritable
    | some rule =>
      have hname (hrule : ∀ r ∈ rule?, r.toDict.Encodable) : rule.ruleName.isUtf8 = true :=
        encodable_str.mp (DelegationRule.encodable_entry (k := "rule_name")
          (hrule rule (mem_of_grantingRule hgrant)) (by simp [DelegationRule.entries]))
      dsimp only
      cases evaluateGuards rule.requiresApprovalIf e with
      | error err => rfl
      | ok fired =>
        cases fired with
        | nil =>
          refine ⟨_, rfl, ?_, triggeredGuards_statusForLevel _ _ _ _, fun hrule => ?_⟩
          · rw [status_statusForLevel, ruleStatus, hbound]
            rfl
          · refine iff_of_true (encodable_statusForLevel ?_ (hrate hrule) _ _ _) hwritable
            simpa using hname hrule
        | cons name rest =>
          refine ⟨_, rfl, ?_, rfl, fun hrule => ?_⟩
          · rw [ruleStatus, hbound]
            rfl
          · refine iff_of_true ?_ hwritable
            rw [PolicyDecision.encodable_toDict]
            exact ⟨rfl, by simpa using hname hrule, by simp, rfl⟩

/-- An answer of the policy is that of its guards. -/
theorem decidedBy_of_evaluate
    (h : engine.evaluate e current consequences risk rule? = .ok d) :
    ∃ fired, ruleGuards engine e current rule? = .ok fired ∧
      DecidedBy engine e current rule? fired d := by
  have hspec := evaluate_spec engine e current consequences risk rule?
  cases hguards : ruleGuards engine e current rule? with
  | error err =>
    rw [hguards, h] at hspec
    cases hspec
  | ok fired =>
    rw [hguards, h] at hspec
    obtain ⟨_, hd, hdecided⟩ := hspec
    cases hd
    exact ⟨fired, rfl, hdecided⟩

variable (consequences risk) in
/-- The policy answers if no guard raises. -/
theorem evaluate_of_guards {fired : List String}
    (h : ruleGuards engine e current rule? = .ok fired) :
    ∃ d, engine.evaluate e current consequences risk rule? = .ok d ∧
      DecidedBy engine e current rule? fired d := by
  have hspec := evaluate_spec engine e current consequences risk rule?
  rwa [h] at hspec

end

/-! ## The rule that a proposal finds -/

theorem searched_eq_ok_iff {e : WorkflowEvent} {stop? rule? : Option DelegationRule} :
    searched e stop? = .ok rule? ↔
      rule? = stop? ∧ ∀ r ∈ stop?, ∃ matched, r.matchesEvent e = .ok matched := by
  cases stop? with
  | none => simp [searched, eq_comm]
  | some r =>
    unfold searched DelegationRule.stopped
    simp only [Option.mem_some_iff, forall_eq']
    cases r.matchesEvent e with
    | error err =>
      constructor
      · intro h
        cases h
      · rintro ⟨_, _, h⟩
        cases h
    | ok matched =>
      constructor
      · intro h
        cases h
        exact ⟨rfl, matched, rfl⟩
      · rintro ⟨rfl, _⟩
        rfl

section

open OrderedStore ControlPlane

variable {P : Primitives} {F : Type} {cp : ControlPlane P F} {o : Oracle} {S C L : Type}
variable [Store S] [LawfulStore S] [OrderedStore S] {w w₁ : World S C L} {e : WorkflowEvent}
variable {agent : AgentIdentity}

/-- An agent is found without a change to the rules. -/
theorem rules_of_found (h : cp.found o w e = some (agent, w₁)) :
    rules w₁.store = rules w.store := by
  unfold found at h
  split at h
  · cases h
    rfl
  · split at h
    · cases h
    · cases h
      exact rules_addAgent _ _

theorem matchingRule_eq_ok_iff {rule? : Option DelegationRule}
    (h : cp.found o w e = some (agent, w₁)) :
    matchingRule e w₁.store = .ok rule? ↔
      rule? = (rules w.store).find? (·.stops e) ∧
        ∀ r ∈ rule?, ∃ matched, r.matchesEvent e = .ok matched := by
  rw [matchingRule_eq, firstMatch_eq, rules_of_found h, searched_eq_ok_iff]
  constructor
  · rintro ⟨rfl, hcompares⟩
    exact ⟨rfl, hcompares⟩
  · rintro ⟨rfl, hcompares⟩
    exact ⟨rfl, hcompares⟩

end

end EarnedAutonomy
