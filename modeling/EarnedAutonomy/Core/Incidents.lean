import EarnedAutonomy.Core.CapabilityRuns
import EarnedAutonomy.Core.Mediation

/-!
# Incidents

What `record_incident` does to the rules and the level of its scope.

* `ScopeClosed` is a scope in which neither a rule nor a standing level lets the agent
  execute.  `ScopeClosed.step` keeps it so through the steps of every command that does not
  open it.
* `rulesClosed_of_incident`: the incident takes the rules of the scope out of force where it
  finds the agent with its level.
* `incident_closes_rules_iff` says when they stay so.  `unregistered_incident_leaves_rules`
  is an incident that comes before the agent.
-/

namespace EarnedAutonomy

open Atomic Service Prog Calendar Store LawfulStore ControlPlane

/-! ## A closed scope -/

/-- No rule of the scope is active. -/
def RulesClosed (v : StoreView) (a w : String) (c : AuthorityClass) : Prop :=
  ∀ i r, v.rules i = some r → r.inScope a w c.value = true → r.active = false

/-- The agent stands at the approval rung or below in the scope. -/
def LevelLowered (v : StoreView) (a w : String) (c : AuthorityClass) : Prop :=
  ∃ agent l, v.agents a = some agent ∧ agent.autonomyFor w c = .ok l ∧
    l.value ≤ AutonomyLevel.executeWithApproval.value

/-- Neither a rule nor a standing level lets the agent execute in the scope. -/
structure ScopeClosed (v : StoreView) (a w : String) (c : AuthorityClass) : Prop where
  rules : RulesClosed v a w c
  level : LevelLowered v a w c

/-- The command can open the scope: it approves a rule for it or registers the
agent. -/
def Reopens (a w : String) (c : AuthorityClass) : Command → Prop
  | .registerAgent agent => agent.agentId = a
  | .approveDelegationRule rule _ _ => rule.inScope a w c.value = true
  | _ => False

theorem RulesClosed.setRule {v : StoreView} {a w : String} {c : AuthorityClass}
    (h : RulesClosed v a w c) {rule : DelegationRule}
    (hrule : rule.inScope a w c.value = true → rule.active = false) :
    RulesClosed (v.setRule rule) a w c := by
  intro i r hr hscope
  rw [StoreView.rules_setRule] at hr
  split at hr
  · cases hr
    exact hrule hscope
  · exact h i r hr hscope

theorem LevelLowered.setAgent_ne {v : StoreView} {a w : String} {c : AuthorityClass}
    (h : LevelLowered v a w c) {agent : AgentIdentity} (hne : agent.agentId ≠ a) :
    LevelLowered (v.setAgent agent) a w c := by
  obtain ⟨g, l, hg, hl, hle⟩ := h
  refine ⟨g, l, ?_, hl, hle⟩
  rw [StoreView.agents_setAgent, if_neg fun heq => hne heq.symm]
  exact hg

/-- A level is read from the stored levels alone. -/
theorem autonomyFor_congr {g g' : AgentIdentity} (h : g'.currentAutonomy = g.currentAutonomy)
    (w : String) (c : AuthorityClass) : g'.autonomyFor w c = g.autonomyFor w c := by
  unfold AgentIdentity.autonomyFor
  rw [h]

/-- An incident in any scope raises no level. -/
theorem Lowered.autonomyFor_le {old new : AgentIdentity} {w w' : String} {c c' : AuthorityClass}
    (h : Lowered w' c' old new) {l : AutonomyLevel} (hl : old.autonomyFor w c = .ok l) :
    ∃ l', new.autonomyFor w c = .ok l' ∧ l'.value ≤ l.value := by
  rcases h.currentAutonomy with hsame | ⟨current, hcurrent, hset⟩
  · exact ⟨l, (autonomyFor_congr hsame w c).trans hl, Nat.le_refl _⟩
  rw [autonomyFor_congr hset]
  by_cases hkey : AgentIdentity.autonomyKey w c = AgentIdentity.autonomyKey w' c'
  · -- both scopes share a key, and so had one level
    have hsame : current = l := by
      have heq : old.autonomyFor w' c' = old.autonomyFor w c := by
        unfold AgentIdentity.autonomyFor
        rw [hkey]
      rw [hcurrent, hl] at heq
      exact Except.ok.inj heq
    subst hsame
    refine ⟨current.cappedAt .executeWithApproval, ?_, ?_⟩
    · unfold AgentIdentity.autonomyFor
      rw [hkey]
      exact AgentIdentity.autonomyFor_setAutonomy old w' c' _
    · rw [AutonomyLevel.value_cappedAt]
      exact Nat.min_le_left _ _
  · refine ⟨l, ?_, Nat.le_refl _⟩
    rw [← hl]
    unfold AgentIdentity.autonomyFor AgentIdentity.setAutonomy
    rw [OrderedDict.Dict.get?_set_ne]
    exact fun heq => hkey heq.symm

section

variable {P : Primitives} {F : Type} {cp : ControlPlane P F} {cmd : Command}
variable {S : Type} [Store S] [LawfulStore S] {a w : String} {c : AuthorityClass}

/-- A step of a command that does not open the scope leaves it closed. -/
theorem ScopeClosed.step {u u' : StoreView} (h : ScopeClosed u a w c) (hkeyed : u.Keyed)
    (hstep : StoreStep S cp cmd u u') (hcmd : ¬ Reopens a w c cmd) : ScopeClosed u' a w c := by
  obtain ⟨hrules, hlevel⟩ := h
  cases hstep with
  | register _ =>
    refine ⟨hrules, hlevel.setAgent_ne ?_⟩
    rw [agentId_kept]
    exact hcmd
  | autoRegister hstrict hunknown =>
    refine ⟨hrules, hlevel.setAgent_ne ?_⟩
    rw [agentId_kept]
    rintro rfl
    obtain ⟨g, _, hg, _⟩ := hlevel
    exact absurd (hg.symm.trans hunknown) (by simp)
  | claim => exact ⟨hrules, hlevel⟩
  | storeEvent _ => exact ⟨hrules, hlevel⟩
  | approve hduties =>
    rename_i rule approverId role
    obtain ⟨hagent, hworkflow, hclass⟩ := ruleScope_kept (S := S)
      { rule with createdBy := some approverId }
    refine ⟨hrules.setRule fun hscope => absurd ?_ hcmd, hlevel⟩
    simpa [Reopens, DelegationRule.inScope, hagent, hworkflow, hclass] using hscope
  | revoke hinactive => exact ⟨hrules.setRule fun _ => hinactive, hlevel⟩
  | lower hold hnew =>
    rename_i a' w' c' reason actorId old new
    refine ⟨hrules, ?_⟩
    have hid : new.agentId = a' := hnew.agentId.trans (hkeyed _ _ hold)
    by_cases ha : a' = a
    · subst ha
      obtain ⟨g, l, hg, hl, hle⟩ := hlevel
      obtain rfl : old = g := by simpa [hold] using hg
      obtain ⟨l', hl', hle'⟩ := hnew.autonomyFor_le hl
      refine ⟨new, l', ?_, hl', hle'.trans hle⟩
      rw [StoreView.agents_setAgent, if_pos hid.symm]
    · exact hlevel.setAgent_ne (by rwa [hid])
  | close hinactive => exact ⟨hrules.setRule fun _ => hinactive, hlevel⟩

end

/-! ## Rules that an incident closes -/

section

variable {P : Primitives} {F : Type} [Arithmetic F] {cp : ControlPlane P F} {o : Oracle}
variable {S C L : Type} [Store S] [LawfulStore S] [CapabilityStateStore C] [AuditLog L]
variable {keys : KeyPair P} {replica : Nat} {a w : String} {c : AuthorityClass}

/-- The turn approves a rule for the scope, and adds it. -/
def ApprovesFor (a w : String) (c : AuthorityClass) (y : CpTurn F S C L) : Prop :=
  ∃ rule approverId role, y.request.2 = .approveDelegationRule rule approverId role ∧
    rule.inScope a w c.value = true ∧
    ⟨.addRule { rule with createdBy := some approverId }, ()⟩ ∈ y.calls

omit [Arithmetic F] in
/-- Rules change by `add_rule` alone. -/
theorem rules_worldHandler {op : Call} (h : ∀ r, op ≠ .addRule r) (s : World S C L) :
    (view (worldHandler o keys replica op s).2.store).rules = (view s.store).rules := by
  cases op with
  | addRule r => exact absurd rfl (h r)
  | addAgent agent => simp only [worldHandler, view_addAgent, StoreView.rules_setAgent]
  | touchAgent agent =>
    simp only [worldHandler]
    rcases view_touchAgent agent s.store with hsame | hset
    · rw [hsame]
    · rw [hset, StoreView.rules_setAgent]
  | addEvent e => simp only [worldHandler, view_addEvent, StoreView.rules_setEvent]
  | touchEvent e =>
    simp only [worldHandler]
    rcases view_touchEvent e s.store with hsame | hset
    · rw [hsame]
    · rw [hset, StoreView.rules_setEvent]
  | claimNonce agentId nonce =>
    simp only [worldHandler, (view_claimNonce _ _ _).2, StoreView.rules_addNonce]
  | applyDecision a w c d =>
    simp only [worldHandler]
    split <;> rfl
  | _ => rfl

/-- Rules that are closed stay so through a turn that approves none for the scope. -/
theorem RulesClosed.turn {y : CpTurn F S C L} (h : RulesClosed (view y.before.store) a w c)
    (hfollows : Follows (cp.body y.request.2) y.calls (ofExcept y.result))
    (hanswers : Answers (worldHandler o keys replica) y.before y.calls y.after)
    (hnone : ¬ ApprovesFor a w c y) : RulesClosed (view y.after.store) a w c := by
  refine hanswers.invariant (I := fun s => RulesClosed (view s.store) a w c) ?_ h
  intro ⟨op, answer⟩ hop s hs
  by_cases hadd : ∃ r, op = .addRule r
  · obtain ⟨r, rfl⟩ := hadd
    simp only [worldHandler, view_addRule]
    refine hs.setRule fun hscope => ?_
    rw [ruleActive_kept]
    obtain ⟨hagent, hworkflow, hclass⟩ := ruleScope_kept (S := S) r
    have hscope : r.inScope a w c.value = true := by
      simpa [DelegationRule.inScope, hagent, hworkflow, hclass] using hscope
    -- a rule is approved for another scope, or it is taken out of force
    rcases follows_body_call hfollows hop with hplain | hown
    · cases hplain
    · generalize hcmd : y.request.2 = cmd at hown
      cases cmd <;> simp only [ownCall, reduceCtorEq, false_or, or_false, and_false,
        exists_false, Call.addRule.injEq] at hown
      case approveDelegationRule rule approverId role =>
        subst hown
        exact absurd ⟨rule, approverId, role, hcmd, hscope, hop⟩ hnone
      case revokeDelegationRule ruleId actorId reason =>
        obtain ⟨r', rfl⟩ := hown
        rfl
      case recordIncident a' w' c' reason actorId =>
        obtain ⟨r', why, rfl⟩ := hown
        rfl
  · have hrules : (view (worldHandler o keys replica op s).2.store).rules = (view s.store).rules :=
      rules_worldHandler (fun r hr => hadd ⟨r, hr⟩) s
    intro i r hr
    rw [hrules] at hr
    exact hs i r hr

omit [Arithmetic F] in
/-- Rules that are listed with all active ones of the scope are taken out of force. -/
theorem ensures_closed_of_deactivateRules {reason : PyStr} (rules : List DelegationRule)
    {s : World S C L} (hkeyed : (view s.store).RulesKeyed)
    (hrules : ∀ i r, (view s.store).rules i = some r → r.inScope a w c.value = true →
      r.active = true → r ∈ rules) :
    (deactivateRules reason rules).Ensures (worldHandler o keys replica) s
      fun _ s' => RulesClosed (view s'.store) a w c := by
  induction rules generalizing s with
  | nil =>
    intro i r hr hscope
    rw [Bool.eq_false_iff]
    intro hactive
    exact absurd (hrules i r hr hscope hactive) List.not_mem_nil
  | cons rule rest ih =>
    unfold deactivateRules
    split
    · rw [perform_bind, ensures_call, ensures_bind]
      let closed := keptRule (S := S)
        (deactivated rule (PyStr.utf8 "auto-revoked by incident: " ++ reason))
      have hid : closed.ruleId = rule.ruleId := ruleId_kept _
      have hactive : closed.active = false := ruleActive_kept _
      have hview : view (addRule (deactivated rule
          (PyStr.utf8 "auto-revoked by incident: " ++ reason)) s.store) =
            (view s.store).setRule closed := view_addRule _ _
      simp only [worldHandler]
      refine (ih ?_ ?_).mono fun result s' hclosed => ?_
      · show (view (addRule _ s.store)).RulesKeyed
        rw [hview]
        exact hkeyed.setRule _
      · intro i r hr hscope hr'
        change (view (addRule _ s.store)).rules i = some r at hr
        rw [hview, StoreView.rules_setRule, hid] at hr
        split at hr
        · cases hr
          rw [hactive] at hr'
          cases hr'
        · rename_i hne
          rcases List.mem_cons.mp (hrules i r hr hscope hr') with rfl | hmem
          · exact absurd (hkeyed i r hr).symm hne
          · exact hmem
      · cases result with
        | ok ids => exact hclosed
        | error err => exact hclosed
    · rename_i hinactive
      refine ih hkeyed fun i r hr hscope hr' => ?_
      rcases List.mem_cons.mp (hrules i r hr hscope hr') with rfl | hmem
      · exact absurd hr' hinactive
      · exact hmem

/-- The agent is registered, and its stored level for the scope is one of the ladder. -/
def HasAgent (s : S) (a w : String) (c : AuthorityClass) : Prop :=
  ∃ agent l, getAgent a s = some agent ∧ agent.autonomyFor w c = .ok l

omit [Arithmetic F] in
/-- The rules are closed where the agent is found with its level, and left alone where
it is not. -/
theorem ensures_rules_of_downgrade {reason : PyStr} {s : World S C L}
    (hkeyed : (view s.store).RulesKeyed) :
    (downgrade a w c reason).Ensures (worldHandler o keys replica) s fun _ s' =>
      (HasAgent s.store a w c → RulesClosed (view s'.store) a w c) ∧
      (¬ HasAgent s.store a w c → (view s'.store).rules = (view s.store).rules) := by
  unfold downgrade HasAgent
  rw [perform_bind, ensures_call]
  simp only [worldHandler]
  cases hagent : getAgent a s.store with
  | none => exact ⟨by simp, fun _ => rfl⟩
  | some agent =>
    have htouched :
        (view (touchAgent (withIncident agent) s.store)).rules = (view s.store).rules := by
      rcases view_touchAgent (withIncident agent) s.store with hsame | hset
      · rw [hsame]
      · rw [hset, StoreView.rules_setAgent]
    dsimp only
    rw [perform_bind, ensures_call, ensures_bind, ensures_ofExcept]
    have hlevel : (withIncident agent).autonomyFor w c = agent.autonomyFor w c := rfl
    rw [hlevel]
    simp only [worldHandler, Option.some.injEq, ↓existsAndEq, true_and]
    cases agent.autonomyFor w c with
    | error err => exact ⟨by simp, fun _ => htouched⟩
    | ok current =>
      dsimp only
      rw [perform_bind, ensures_call, perform_bind, ensures_call]
      simp only [worldHandler]
      let s' := addAgent
        ((withIncident agent).setAutonomy w c (current.cappedAt .executeWithApproval))
        (touchAgent (withIncident agent) s.store)
      have hrules : (view s').rules = (view s.store).rules := by
        rw [view_addAgent, StoreView.rules_setAgent, htouched]
      have hkeyed' : (view s').RulesKeyed := by
        unfold StoreView.RulesKeyed
        rw [hrules]
        exact hkeyed
      refine (ensures_closed_of_deactivateRules _ hkeyed' fun i r hr hscope _ => ?_).mono
        fun _ _ hclosed => ⟨fun _ => hclosed, fun h => absurd ⟨current, rfl⟩ h⟩
      rw [mem_rulesFor]
      have hi := hkeyed' i r hr
      subst hi
      exact ⟨hr, hscope⟩

/-- An incident closes the scope where its agent is found with its level. -/
theorem ensures_rules_of_recordIncident {reason : PyStr} {actorId : String} {s : World S C L}
    (hkeyed : (view s.store).RulesKeyed) :
    (recordIncident F a w c reason actorId).Ensures (worldHandler o keys replica) s fun _ s' =>
      (HasAgent s.store a w c → RulesClosed (view s'.store) a w c) ∧
      (¬ HasAgent s.store a w c → (view s'.store).rules = (view s.store).rules) := by
  unfold recordIncident
  rw [perform_bind, ensures_call, perform_bind, ensures_call, ensures_bind]
  generalize hcounted : (worldHandler o keys replica .countIncident
    (worldHandler o keys replica (.noteIncident a w c) s).2).2 = s₁
  have hsame : s₁.store = s.store := by
    rw [← hcounted]
    exact (store_worldHandler rfl _).trans (store_worldHandler rfl _)
  rw [← hsame] at hkeyed ⊢
  refine (ensures_rules_of_downgrade hkeyed).mono fun result s' hclosed => ?_
  cases result with
  | error err => exact hclosed
  | ok rules =>
    -- the rest revokes tokens and writes to the ledger
    refine (ensures_of_uses (I := fun t => t.store = s'.store)
      (A := fun c => c.changesStore = false) ?_ ?_ rfl).mono fun _ t hstore => ?_
    · refine uses_bind (uses_revokeScope rfl) fun _ => ?_
      exact uses_bind (uses_ledgerAppend rfl) fun _ => trivial
    · intro op hop t hstore
      exact (store_worldHandler hop t).trans hstore
    · rw [hstore]
      exact hclosed

/-- What an incident leaves of the rules, whether or not it returns. -/
theorem rulesClosed_of_incident {x : CpTurn F S C L} {reason : PyStr} {actorId : String}
    (hserve : x = (cp.system o).serve x.before x.request)
    (hreq : x.request.2 = .recordIncident a w c reason actorId)
    (hkeyed : (view x.before.store).RulesKeyed) :
    RulesClosed (view x.after.store) a w c ↔
      HasAgent x.before.store a w c ∨ RulesClosed (view x.before.store) a w c := by
  obtain ⟨before, ⟨replica, cmd⟩, calls, result, after⟩ := x
  obtain rfl : cmd = _ := hreq
  have hclosed := (cp.system o).of_ensures hserve (Q := fun _ s' =>
      (HasAgent before.store a w c → RulesClosed (view s'.store) a w c) ∧
      (¬ HasAgent before.store a w c → (view s'.store).rules = (view before.store).rules)) ?_
  · by_cases hagent : HasAgent before.store a w c
    · exact iff_of_true (hclosed.1 hagent) (Or.inl hagent)
    · have hrules : (view after.store).rules = (view before.store).rules := hclosed.2 hagent
      unfold RulesClosed
      rw [hrules, or_iff_right hagent]
  · refine ensures_bind.mpr ((ensures_rules_of_recordIncident hkeyed).mono fun r s' hs' => ?_)
    cases r <;> exact hs'

variable {turns : List (CpTurn F S C L)} {s : World S C L}

/-- From an incident on no rule of its scope is active, until one is approved, exactly if
the agent was registered with a level on the ladder, or no rule was active before. -/
theorem incident_closes_rules_iff (h : (cp.system o).Runs (World.initial S C L) turns s) {i : Nat}
    {x : CpTurn F S C L} (hi : turns[i]? = some x) {reason : PyStr} {actorId : String}
    (hreq : x.request.2 = .recordIncident a w c reason actorId) :
    (∀ j y, i ≤ j → turns[j]? = some y →
      (∀ k z, i < k → k ≤ j → turns[k]? = some z → ¬ ApprovesFor a w c z) →
        RulesClosed (view y.after.store) a w c) ↔
      HasAgent x.before.store a w c ∨ RulesClosed (view x.before.store) a w c := by
  obtain ⟨hbefore, hserve, _⟩ := h.getElem? hi
  rw [← rulesClosed_of_incident hserve hreq (keyed_of_runs hbefore).2]
  constructor
  · intro hall
    exact hall i x (Nat.le_refl i) hi fun k z hlt hle _ => by omega
  · intro hclosed j y hij hj hnone
    rcases Nat.eq_or_lt_of_le hij with rfl | hlt
    · obtain rfl : x = y := by simpa [hi] using hj
      exact hclosed
    · refine RulesClosed.turn ?_ (h.follows hj) (h.answers hj) (hnone j y hlt (Nat.le_refl j) hj)
      refine h.invariant_between (I := fun s => RulesClosed (view s.store) a w c) hlt hi hj hclosed
        fun k z hik hkj hk _ hz => ?_
      exact hz.turn (h.follows hk) (h.answers hk) (hnone k z hik hkj.le hk)

end

/-! ### An incident before the registration -/

/-- A rule is approved, and an incident is recorded in its scope. -/
def closedRuleDemo : List (Nat × Command) := [
  (0, .approveDelegationRule (demoRule .modifyInternalRecord .executeWithSampling) "approver" none),
  (0, .recordIncident "agent" "claims" .modifyInternalRecord "wrong record" "operator")]

/-- The agent was not registered, and its rule stays active when it comes. -/
theorem unregistered_incident_leaves_rules :
    let turns := demoSystem.history (World.initial _ _ _)
      (closedRuleDemo ++ [(0, .registerAgent demoAgent)])
    ∃ x y, turns[1]? = some x ∧
      x.request.2 =
        .recordIncident "agent" "claims" .modifyInternalRecord "wrong record" "operator" ∧
      turns[2]? = some y ∧ ¬ ApprovesFor "agent" "claims" .modifyInternalRecord y ∧
      ¬ RulesClosed (view y.after.store) "agent" "claims" .modifyInternalRecord := by
  refine ⟨_, _, rfl, rfl, rfl, fun ⟨_, _, _, hreq, _⟩ => (nomatch hreq), fun hclosed => ?_⟩
  have hactive : ((view (demoSystem.final (World.initial _ _ _)
      (closedRuleDemo ++ [(0, .registerAgent demoAgent)])).store).rules "rule_1").any
        (fun r => r.inScope "agent" "claims" AuthorityClass.modifyInternalRecord.value &&
          r.active) =
          true := by
    decide +kernel
  obtain ⟨r, hr, hscope⟩ := (Option.any_eq_true _ _).mp hactive
  rw [Bool.and_eq_true] at hscope
  have hinactive := hclosed _ r hr hscope.1
  rw [hscope.2] at hinactive
  cases hinactive

/-- Of a registered agent the rule is taken out of force, also if it registers again. -/
theorem registered_incident_closes_rules :
    let turns := demoSystem.history (World.initial _ _ _)
      ((0, .registerAgent demoAgent) :: closedRuleDemo ++ [(0, .registerAgent demoAgent)])
    ∃ y, turns[3]? = some y ∧
      RulesClosed (view y.after.store) "agent" "claims" .modifyInternalRecord := by
  have hrun := runs_history (S := demoSystem) (World.initial _ _ _)
    ((0, .registerAgent demoAgent) :: closedRuleDemo ++ [(0, .registerAgent demoAgent)])
  refine ⟨_, rfl, (incident_closes_rules_iff hrun (i := 2) rfl rfl).mpr
    (Or.inl ⟨demoAgent, .observeOnly, rfl, rfl⟩) 3 _ (by omega) rfl fun k z hlt hle hk => ?_⟩
  obtain rfl : k = 3 := by omega
  obtain rfl := Option.some.inj hk
  exact fun ⟨_, _, _, hreq, _⟩ => nomatch hreq

end EarnedAutonomy
