import EarnedAutonomy.Core.Incidents

/-!
# What an incident does not touch

`record_incident` writes to five places under five keys: the agent under the text
`workflow:authority`, the rules under their fields, the tokens under the scope on record, the
statistics under a triple, and the metrics.

* `StableStore` and `ScopedRevocation` are what both backends promise besides: an agent from
  the store is stored as it is, and a scope is revoked for its own tokens.
* `WithinScope` is what an incident leaves of a store.  It holds of one write
  (`WithinScope.setAgent`, `WithinScope.setRule`), and writes compose.
* `incident_stays_in_scope` is about every reachable state and every incident.
-/

namespace EarnedAutonomy

open Atomic Service Prog OrderedDict Calendar Store LawfulStore ControlPlane

/-! ## Agents that come from the store -/

section

variable (S : Type) [Store S] [LawfulStore S]

/-- The store keeps the agent as it is, with any count and any levels. -/
def Kept (g : AgentIdentity) : Prop :=
  ∀ (n : Int) (levels : Dict String Int),
    keptAgent (S := S) { g with incidentCount := n, currentAutonomy := levels } =
      { g with incidentCount := n, currentAutonomy := levels }

/-- What a store keeps of an agent, it keeps again. -/
class StableStore : Prop where
  kept_keptAgent : ∀ g, Kept S (keptAgent (S := S) g)
  /-- A change to an object shows only where the object itself is stored. -/
  kept_touchAgent : ∀ g (s : S), view (touchAgent g s) = view s ∨
    view (touchAgent g s) = (view s).setAgent g ∧ Kept S g

end

/-- A point that is no high surrogate stays in front. -/
private theorem combineSurrogates_cons {x : Nat} (h : x < 0xD800 ∨ 0xDC00 ≤ x) (ps : List Nat) :
    combineSurrogates (x :: ps) = x :: combineSurrogates ps := by
  cases ps with
  | nil => rfl
  | cons q qs => rw [combineSurrogates, if_neg (by omega)]

/-- What comes first is the first point or a character above the surrogates. -/
private theorem exists_combineSurrogates_cons (lo : Nat) (ps : List Nat) :
    ∃ x rest, combineSurrogates (lo :: ps) = x :: rest ∧ (x = lo ∨ 0x10000 ≤ x) := by
  cases ps with
  | nil => exact ⟨lo, [], rfl, Or.inl rfl⟩
  | cons q qs =>
    unfold combineSurrogates
    split
    · exact ⟨_, _, rfl, Or.inr (by omega)⟩
    · exact ⟨_, _, rfl, Or.inl rfl⟩

/-- Pairs of surrogates are read as one character, and no new pair comes from that. -/
theorem combineSurrogates_idem (points : List Nat) :
    combineSurrogates (combineSurrogates points) = combineSurrogates points := by
  induction points using combineSurrogates.induct with
  | case1 hi lo ps hpair ih =>
    rw [combineSurrogates, if_pos hpair, combineSurrogates_cons (by omega), ih]
  | case2 hi lo ps hpair ih =>
    obtain ⟨x, rest, hfront, hx⟩ := exists_combineSurrogates_cons lo ps
    rw [combineSurrogates, if_neg hpair]
    rw [hfront] at ih ⊢
    rw [combineSurrogates, if_neg (by omega), ih]
  | case3 ps h =>
    match ps, h with
    | [], _ => rfl
    | [_], _ => rfl
    | hi :: lo :: rest, h => exact absurd rfl (h hi lo rest)

/-- A text from a JSON column is stored as it is. -/
theorem columnText_idem (t : PyStr) : columnText (columnText t) = columnText t := by
  cases t with
  | utf8 s => rfl
  | lone t =>
    show columnText (.ofPoints (combineSurrogates t.points)) =
      .ofPoints (combineSurrogates t.points)
    by_cases hlone : (combineSurrogates t.points).any isSurrogate = true
    · have hread : PyStr.ofPoints (combineSurrogates t.points) =
          .lone ⟨combineSurrogates t.points, hlone⟩ := dif_pos hlone
      rw [hread]
      show PyStr.ofPoints (combineSurrogates (combineSurrogates t.points)) = _
      rw [combineSurrogates_idem, hread]
    · have hread : PyStr.ofPoints (combineSurrogates t.points) =
          .utf8 (String.ofList ((combineSurrogates t.points).map Char.ofNat)) := dif_neg hlone
      rw [hread]
      rfl

instance : StableStore InMemoryStore where
  kept_keptAgent _ _ _ := rfl
  kept_touchAgent g s := by
    refine Or.inr ⟨?_, fun _ _ => rfl⟩
    exact view_addAgent g s

instance : StableStore SqlStore where
  kept_keptAgent g n levels := by
    show columnAgent _ = _
    simp only [keptAgent, columnAgent, columnText_idem, List.map_map]
    congr 1
    refine List.map_congr_left fun t _ => ?_
    exact columnText_idem t
  kept_touchAgent _ _ := Or.inl rfl

section

variable {S C L : Type} [Store S] [LawfulStore S] [StableStore S] [CapabilityStateStore C]
variable [AuditLog L] {P : Primitives} {F : Type} [Arithmetic F] {cp : ControlPlane P F}
variable {o : Oracle}

/-- Every agent of the store came through it. -/
def AgentsKept (s : S) : Prop := ∀ i g, (view s).agents i = some g → Kept S g

omit [Arithmetic F] in
theorem AgentsKept.worldHandler {w : World S C L} (h : AgentsKept w.store) {keys : KeyPair P}
    {replica : Nat} (op : Call) : AgentsKept (worldHandler o keys replica op w).2.store := by
  have of_setAgent {s' : S} {g : AgentIdentity} (hview : view s' = (view w.store).setAgent g)
      (hg : Kept S g) : AgentsKept s' := by
    intro i g' hg'
    rw [hview, StoreView.agents_setAgent] at hg'
    split at hg'
    · cases hg'
      exact hg
    · exact h i g' hg'
  have of_agents {s' : S} (hview : (view s').agents = (view w.store).agents) : AgentsKept s' := by
    intro i g hg
    rw [hview] at hg
    exact h i g hg
  cases op with
  | addAgent g => exact of_setAgent (view_addAgent g _) (StableStore.kept_keptAgent g)
  | touchAgent g =>
    rcases StableStore.kept_touchAgent g w.store with hsame | ⟨hset, hg⟩
    · exact of_agents (by rw [EarnedAutonomy.worldHandler, hsame])
    · exact of_setAgent hset hg
  | addEvent e => exact of_agents (by rw [EarnedAutonomy.worldHandler, view_addEvent]; rfl)
  | touchEvent e =>
    refine of_agents ?_
    rw [EarnedAutonomy.worldHandler]
    rcases view_touchEvent e w.store with hsame | hset
    · rw [hsame]
    · rw [hset, StoreView.agents_setEvent]
  | addRule r => exact of_agents (by rw [EarnedAutonomy.worldHandler, view_addRule]; rfl)
  | claimNonce a n =>
    exact of_agents (by rw [EarnedAutonomy.worldHandler, (view_claimNonce _ _ _).2]; rfl)
  | applyDecision a wf c d =>
    rw [EarnedAutonomy.store_worldHandler rfl]
    exact h
  | _ => exact h

/-- In every reachable state an agent of the store is stored as it is. -/
theorem agentsKept_of_runs {turns : List (CpTurn F S C L)} {w : World S C L}
    (h : (cp.system o).Runs (World.initial S C L) turns w) : AgentsKept w.store := by
  refine h.invariant (I := fun w => AgentsKept w.store) ?_ fun x _ hserve hbefore => ?_
  · intro i g hg
    rw [show view (World.initial S C L).store = .empty from view_empty] at hg
    cases hg
  · refine (cp.system o).of_ensures hserve (Q := fun _ w' => AgentsKept w'.store) ?_
    exact ensures_of_uses (uses_true _) (fun op _ _ hs => hs.worldHandler op) hbefore

end

/-! ## Tokens of other scopes -/

open CapabilityStateStore in
/-- Revoking a scope consumes nothing and marks tokens of the scope alone. -/
class ScopedRevocation (C : Type) [CapabilityStateStore C] : Prop where
  issued?_revokeScope : ∀ (s : C) a w c t, issued? (revokeScope a w c s).2 t = issued? s t
  isConsumed_revokeScope : ∀ (s : C) a w c t,
    isConsumed t (revokeScope a w c s).2 = isConsumed t s
  isRevoked_revokeScope : ∀ (s : C) a w c t,
    (∀ e, issued? s t = some e → e.inScope a w c = false) →
      isRevoked t (revokeScope a w c s).2 = isRevoked t s

instance : ScopedRevocation InMemoryCapabilityStore where
  issued?_revokeScope := LawfulCapabilityStore.issued?_revokeScope
  isConsumed_revokeScope _ _ _ _ _ := rfl
  isRevoked_revokeScope s a w c t h := by
    rw [Bool.eq_iff_iff, InMemoryCapabilityStore.isRevoked_iff,
      InMemoryCapabilityStore.isRevoked_iff]
    show t ∈ _ ++ s.revoked ↔ _
    rw [List.mem_append, or_iff_right]
    intro hmem
    obtain ⟨⟨k, e⟩, hhit, rfl⟩ := List.mem_map.mp hmem
    obtain ⟨hissued, hscope⟩ := List.mem_filter.mp hhit
    have hout := h e ((Dict.get?_eq_some_iff s.nodup).mpr hissued)
    rw [hout] at hscope
    cases hscope

instance : ScopedRevocation SqlCapabilityStore where
  issued?_revokeScope := LawfulCapabilityStore.issued?_revokeScope
  isConsumed_revokeScope s a w c t := by
    rw [SqlCapabilityStore.isConsumed_eq, SqlCapabilityStore.isConsumed_eq]
    show (((s.revokeScope a w c).2.row? t).map TokenRow.consumed).getD false = _
    rw [SqlCapabilityStore.row?_revokeScope]
    cases s.row? t with
    | none => rfl
    | some r =>
      dsimp only [Option.map_some]
      split <;> rfl
  isRevoked_revokeScope s a w c t h := by
    rw [Bool.eq_iff_iff, SqlCapabilityStore.isRevoked_iff, SqlCapabilityStore.isRevoked_iff]
    show (∃ r, (s.revokeScope a w c).2.row? t = some r ∧ _) ↔ _
    rw [SqlCapabilityStore.row?_revokeScope]
    cases hrow : s.row? t with
    | none => exact Iff.rfl
    | some r =>
      have hout : r.entry.inScope a w c = false := h r.entry (congrArg (Option.map _) hrow)
      rw [Option.map_some, hout]
      exact Iff.rfl

/-! ## The store within a scope -/

/-- The agent is the same up to its count of incidents and its level in the scope. -/
structure SameElsewhere (w : String) (c : AuthorityClass) (old new : AgentIdentity) : Prop where
  fields : new = { old with
    incidentCount := new.incidentCount, currentAutonomy := new.currentAutonomy }
  levels : ∀ key, key ≠ AgentIdentity.autonomyKey w c →
    Dict.get? new.currentAutonomy key = Dict.get? old.currentAutonomy key

theorem SameElsewhere.refl (w : String) (c : AuthorityClass) (g : AgentIdentity) :
    SameElsewhere w c g g := ⟨rfl, fun _ _ => rfl⟩

theorem SameElsewhere.trans {w : String} {c : AuthorityClass} {g g' g'' : AgentIdentity}
    (h : SameElsewhere w c g g') (h' : SameElsewhere w c g' g'') : SameElsewhere w c g g'' := by
  constructor
  · rw [h'.fields, h.fields]
  · intro key hkey
    exact (h'.levels key hkey).trans (h.levels key hkey)

/-- The level of another scope is under another key. -/
theorem SameElsewhere.autonomyFor {w w' : String} {c c' : AuthorityClass}
    {old new : AgentIdentity} (h : SameElsewhere w c old new) (hne : ¬ (w' = w ∧ c' = c)) :
    new.autonomyFor w' c' = old.autonomyFor w' c' := by
  unfold AgentIdentity.autonomyFor
  rw [h.levels _ fun hkey => hne (AgentIdentity.autonomyKey_injective hkey)]

/-- The rule is the same, or both are of the scope. -/
def SameOrInScope (a w : String) (c : AuthorityClass) (old new : DelegationRule) : Prop :=
  new = old ∨ old.inScope a w c.value = true ∧ new.inScope a w c.value = true

theorem SameOrInScope.refl (a w : String) (c : AuthorityClass) (r : DelegationRule) :
    SameOrInScope a w c r r := Or.inl rfl

theorem SameOrInScope.trans {a w : String} {c : AuthorityClass} {r r' r'' : DelegationRule}
    (h : SameOrInScope a w c r r') (h' : SameOrInScope a w c r' r'') :
    SameOrInScope a w c r r'' := by
  rcases h with rfl | ⟨hold, hmid⟩
  · exact h'
  · rcases h' with rfl | ⟨_, hnew⟩
    · exact Or.inr ⟨hold, hmid⟩
    · exact Or.inr ⟨hold, hnew⟩

/-- What a store holds is the same up to the scope. -/
structure WithinScope (a w : String) (c : AuthorityClass) (v v' : StoreView) : Prop where
  agents : ∀ i, i ≠ a → v'.agents i = v.agents i
  agent : Option.Rel (SameElsewhere w c) (v.agents a) (v'.agents a)
  rules : ∀ i, Option.Rel (SameOrInScope a w c) (v.rules i) (v'.rules i)
  events : v'.events = v.events
  nonces : v'.nonces = v.nonces

section

variable {a w : String} {c : AuthorityClass} {v v' v'' : StoreView}

private theorem rel_self {α : Type} {R : α → α → Prop} (hR : ∀ x, R x x) (x : Option α) :
    Option.Rel R x x := by
  cases x with
  | none => exact .none
  | some x => exact .some (hR x)

private theorem rel_trans {α : Type} {R : α → α → Prop} (hR : ∀ x y z, R x y → R y z → R x z)
    {x y z : Option α} (h : Option.Rel R x y) (h' : Option.Rel R y z) : Option.Rel R x z := by
  cases h with
  | none => exact h'
  | some hxy =>
    cases h' with
    | some hyz => exact .some (hR _ _ _ hxy hyz)

theorem WithinScope.refl : WithinScope a w c v v :=
  ⟨fun _ _ => rfl, rel_self (SameElsewhere.refl w c) _,
    fun _ => rel_self (SameOrInScope.refl a w c) _,
    rfl, rfl⟩

theorem WithinScope.trans (h : WithinScope a w c v v') (h' : WithinScope a w c v' v'') :
    WithinScope a w c v v'' where
  agents i hi := (h'.agents i hi).trans (h.agents i hi)
  agent := rel_trans (R := SameElsewhere w c) (fun _ _ _ => .trans) h.agent h'.agent
  rules i := rel_trans (R := SameOrInScope a w c) (fun _ _ _ => .trans) (h.rules i) (h'.rules i)
  events := h'.events.trans h.events
  nonces := h'.nonces.trans h.nonces

/-- Writing the agent back. -/
theorem WithinScope.setAgent {old new : AgentIdentity} (hold : v.agents a = some old)
    (hid : new.agentId = a) (hsame : SameElsewhere w c old new) :
    WithinScope a w c v (v.setAgent new) where
  agents i hi := by rw [StoreView.agents_setAgent, if_neg fun h => hi (h.trans hid)]
  agent := by
    rw [StoreView.agents_setAgent, if_pos hid.symm, hold]
    exact .some hsame
  rules _ := rel_self (SameOrInScope.refl a w c) _
  events := rfl
  nonces := rfl

/-- Writing a rule of the scope back. -/
theorem WithinScope.setRule {old new : DelegationRule} (hold : v.rules new.ruleId = some old)
    (hscope : old.inScope a w c.value = true) (hscope' : new.inScope a w c.value = true) :
    WithinScope a w c v (v.setRule new) where
  agents _ _ := rfl
  agent := rel_self (SameElsewhere.refl w c) _
  rules i := by
    rw [StoreView.rules_setRule]
    split
    · rename_i hi
      rw [hi, hold]
      exact .some (Or.inr ⟨hscope, hscope'⟩)
    · exact rel_self (SameOrInScope.refl a w c) _
  events := rfl
  nonces := rfl

/-- A rule of another scope is not touched, and none comes or goes. -/
theorem WithinScope.rule_iff (h : WithinScope a w c v v') {r : DelegationRule}
    (hout : r.inScope a w c.value = false) (i : String) :
    v'.rules i = some r ↔ v.rules i = some r := by
  have hrule := h.rules i
  generalize v.rules i = x at hrule
  generalize v'.rules i = y at hrule
  cases hrule with
  | none => exact Iff.rfl
  | some hsame =>
    rcases hsame with rfl | ⟨hold, hnew⟩
    · exact Iff.rfl
    · constructor
      · intro heq
        cases heq
        rw [hnew] at hout
        cases hout
      · intro heq
        cases heq
        rw [hold] at hout
        cases hout

end

/-! ## The writes of an incident -/

section

variable {P : Primitives} {F : Type} [Arithmetic F] {o : Oracle} {S C L : Type} [Store S]
variable [LawfulStore S] [CapabilityStateStore C] [AuditLog L]
variable {keys : KeyPair P} {replica : Nat} {a w : String} {c : AuthorityClass}

theorem inScope_deactivated (r : DelegationRule) (reason : PyStr) :
    (keptRule (S := S) (deactivated r reason)).inScope a w c.value = r.inScope a w c.value := by
  obtain ⟨hagent, hworkflow, hclass⟩ := ruleScope_kept (S := S) (deactivated r reason)
  simp only [DelegationRule.inScope, hagent, hworkflow, hclass]
  rfl

omit [Arithmetic F] in
/-- Rules of the scope are written back in the scope. -/
theorem ensures_withinScope_of_deactivateRules {reason : PyStr} (rules : List DelegationRule)
    {s : World S C L} (hrules : ∀ r ∈ rules, r.inScope a w c.value = true ∧
      ∃ old, (view s.store).rules r.ruleId = some old ∧ old.inScope a w c.value = true) :
    (deactivateRules reason rules).Ensures (worldHandler o keys replica) s
      fun _ s' => WithinScope a w c (view s.store) (view s'.store) := by
  induction rules generalizing s with
  | nil => exact .refl
  | cons rule rest ih =>
    obtain ⟨hscope, old, hold, holdScope⟩ := hrules rule List.mem_cons_self
    unfold deactivateRules
    split
    · rw [perform_bind, ensures_call]
      let closed := keptRule (S := S)
        (deactivated rule (PyStr.utf8 "auto-revoked by incident: " ++ reason))
      have hid : closed.ruleId = rule.ruleId := ruleId_kept _
      have hclosed : closed.inScope a w c.value = true :=
        (inScope_deactivated rule _).trans hscope
      have hview : view (addRule (deactivated rule
          (PyStr.utf8 "auto-revoked by incident: " ++ reason)) s.store) =
            (view s.store).setRule closed := view_addRule _ _
      have hwrite : WithinScope a w c (view s.store) ((view s.store).setRule closed) :=
        .setRule (by rw [hid]; exact hold) holdScope hclosed
      refine ensures_bind.mpr ((ih ?_).mono fun result s' hs' => ?_)
      · intro r hr
        obtain ⟨hin, before, hbefore, hbeforeScope⟩ := hrules r (List.mem_cons_of_mem _ hr)
        refine ⟨hin, ?_⟩
        show ∃ old, (view (addRule _ s.store)).rules r.ruleId = some old ∧ _
        rw [hview, StoreView.rules_setRule]
        split
        · exact ⟨closed, rfl, hclosed⟩
        · exact ⟨before, hbefore, hbeforeScope⟩
      · have hs' : WithinScope a w c ((view s.store).setRule closed) (view s'.store) := by
          rw [← hview]
          exact hs'
        cases result with
        | ok ids => exact hwrite.trans hs'
        | error err => exact hwrite.trans hs'
    · exact ih fun r hr => hrules r (List.mem_cons_of_mem _ hr)

omit [Arithmetic F] in
/-- The agent and its rules are written back within the scope. -/
theorem ensures_withinScope_of_downgrade {reason : PyStr} {s : World S C L}
    (hkeyed : (view s.store).Keyed) (hkept : AgentsKept s.store) :
    (downgrade a w c reason).Ensures (worldHandler o keys replica) s
      fun _ s' => WithinScope a w c (view s.store) (view s'.store) := by
  unfold downgrade
  rw [perform_bind, ensures_call]
  simp only [worldHandler]
  cases hfound : getAgent a s.store with
  | none => exact .refl
  | some agent =>
    dsimp only
    rw [getAgent_eq] at hfound
    have hid : agent.agentId = a := hkeyed a agent hfound
    have hagent : Kept S agent := hkept a agent hfound
    rw [perform_bind, ensures_call]
    simp only [worldHandler]
    -- the count shows in the store or it does not
    have htouched : WithinScope a w c (view s.store)
        (view (touchAgent (withIncident agent) s.store)) ∧ ∃ old,
          (view (touchAgent (withIncident agent) s.store)).agents a = some old ∧
          SameElsewhere w c old (withIncident agent) := by
      rcases view_touchAgent (withIncident agent) s.store with hsame | hset
      · rw [hsame]
        exact ⟨.refl, agent, hfound, rfl, fun _ _ => rfl⟩
      · rw [hset]
        refine ⟨.setAgent hfound hid ⟨rfl, fun _ _ => rfl⟩, withIncident agent, ?_, .refl w c _⟩
        rw [StoreView.agents_setAgent, if_pos (show a = (withIncident agent).agentId from hid.symm)]
    obtain ⟨hwithin, old, hold, hcounted⟩ := htouched
    rw [ensures_bind, ensures_ofExcept]
    cases (withIncident agent).autonomyFor w c with
    | error err => exact hwithin
    | ok current =>
      dsimp only
      rw [perform_bind, ensures_call, perform_bind, ensures_call]
      simp only [worldHandler]
      let lowered := (withIncident agent).setAutonomy w c (current.cappedAt .executeWithApproval)
      have hlowered : keptAgent (S := S) lowered = lowered := hagent _ _
      have hview : view (addAgent lowered (touchAgent (withIncident agent) s.store)) =
          (view (touchAgent (withIncident agent) s.store)).setAgent lowered := by
        rw [view_addAgent, hlowered]
      have hlevel : SameElsewhere w c (withIncident agent) lowered :=
        ⟨rfl, fun key hkey => Dict.get?_set_ne _ _ fun h => hkey h.symm⟩
      have hwithin : WithinScope a w c (view s.store)
          (view (addAgent lowered (touchAgent (withIncident agent) s.store))) := by
        rw [hview]
        exact hwithin.trans (.setAgent hold hid (hcounted.trans hlevel))
      refine (ensures_withinScope_of_deactivateRules _ fun r hr => ?_).mono
        fun _ s' hs' => hwithin.trans hs'
      rw [mem_rulesFor] at hr
      exact ⟨hr.2, r, hr.1, hr.2⟩

/-- The calls with which an incident reaches agents and rules. -/
def Call.onAgentsAndRules : Call → Bool
  | .getAgent _ | .touchAgent _ | .addAgent _ | .rulesFor _ _ _ | .addRule _ => true
  | _ => false

theorem uses_downgrade_onAgentsAndRules {reason : PyStr} :
    (downgrade a w c reason).Uses fun op => op.onAgentsAndRules = true := by
  refine uses_call_bind rfl fun found => ?_
  cases found with
  | none => trivial
  | some agent =>
    refine uses_call_bind rfl fun _ => ?_
    refine uses_bind (uses_ofExcept _) fun current => ?_
    refine uses_call_bind rfl fun _ => ?_
    exact uses_call_bind rfl fun rules => uses_deactivateRules (fun _ _ => rfl) rules

omit [Arithmetic F] [LawfulStore S] in
/-- Everything but the store stays. -/
theorem eq_of_onAgentsAndRules {op : Call} (h : op.onAgentsAndRules = true) (s : World S C L) :
    (worldHandler o keys replica op s).2 =
      { s with store := (worldHandler o keys replica op s).2.store } := by
  cases op with
  | getAgent _ | touchAgent _ | addAgent _ | rulesFor _ _ _ | addRule _ => rfl
  | _ => cases h

open CapabilityStateStore

/-- What an incident does, each part under its own key. -/
structure IncidentEffect (replica : Nat) (a w : String) (c : AuthorityClass)
    (s s' : World S C L) : Prop where
  store : WithinScope a w c (view s.store) (view s'.store)
  capability : s'.capability = s.capability ∨
    s'.capability = (revokeScope a w c.value s.capability).2
  memories : ∃ created now, s'.memories = Function.update s.memories replica
    ((s.memories replica).recordIncident a w c created now).2
  metrics : s'.metrics = Function.update s.metrics replica
    { s.metrics replica with incidents := (s.metrics replica).incidents + 1 }

/-- One record more than before. -/
def OneMore (eventType : String) (l l' : L) : Prop :=
  ∃ r, AuditLog.records l' = AuditLog.records l ++ [r] ∧ r.eventType = eventType

variable [LawfulAuditLog L]

omit [Arithmetic F] [LawfulStore S] in
/-- An append that returns has added a record of its type, one that raises has added none,
and nothing but the ledger, the clock and the generator is touched. -/
theorem ensures_ledgerAppend {eventType : String} {payload : PyVal} {actorId : Option String}
    (s : World S C L) :
    (ledgerAppend eventType payload actorId).Ensures (worldHandler o keys replica) s
      fun result s' =>
        s' = { s with ledger := s'.ledger, reads := s'.reads, draws := s'.draws } ∧
        match result with
        | .ok _ => OneMore eventType s.ledger s'.ledger
        | .error _ => AuditLog.records s'.ledger = AuditLog.records s.ledger := by
  unfold ledgerAppend
  rw [perform_bind, ensures_call, ensures_ofExcept]
  refine ⟨rfl, ?_⟩
  simp only [worldHandler]
  generalize happend : AuditLog.append keys _ s.ledger = answer
  obtain ⟨result, l⟩ := answer
  cases result with
  | error err => exact LawfulAuditLog.append_error keys _ _ _ _ happend
  | ok r =>
    obtain ⟨r', hrecords, hfor⟩ := LawfulAuditLog.append_ok keys _ _ _ _ happend
    exact ⟨r', hrecords, hfor.1⟩

/-- An incident that returns has added its record, one that raises has added none. -/
theorem ensures_incidentEffect {reason : PyStr} {actorId : String} {s : World S C L}
    (hkeyed : (view s.store).Keyed) (hkept : AgentsKept s.store) :
    (recordIncident F a w c reason actorId).Ensures (worldHandler o keys replica) s
      fun result s' => IncidentEffect replica a w c s s' ∧
        match result with
        | .ok _ => OneMore "incident.recorded" s.ledger s'.ledger
        | .error _ => AuditLog.records s'.ledger = AuditLog.records s.ledger := by
  unfold recordIncident
  rw [perform_bind, ensures_call, perform_bind, ensures_call, ensures_bind]
  generalize hcounted : (worldHandler o keys replica .countIncident
    (worldHandler o keys replica (.noteIncident a w c) s).2).2 = s₁
  have hstore : s₁.store = s.store := by
    rw [← hcounted]
    exact (store_worldHandler rfl _).trans (store_worldHandler rfl _)
  have hcapability : s₁.capability = s.capability := by
    rw [← hcounted]
    rfl
  have hledger : s₁.ledger = s.ledger := by
    rw [← hcounted]
    rfl
  have hmemories : ∃ created now, s₁.memories = Function.update s.memories replica
      ((s.memories replica).recordIncident a w c created now).2 := by
    rw [← hcounted]
    exact ⟨_, _, rfl⟩
  have hmetrics : s₁.metrics = Function.update s.metrics replica
      { s.metrics replica with incidents := (s.metrics replica).incidents + 1 } := by
    rw [← hcounted]
    rfl
  rw [← hstore] at hkeyed hkept
  have hwithin : (downgrade a w c reason).Ensures (worldHandler o keys replica) s₁
      fun _ t => WithinScope a w c (view s₁.store) (view t.store) :=
    ensures_withinScope_of_downgrade hkeyed hkept
  have hrest : (downgrade a w c reason).Ensures (worldHandler o keys replica) s₁
      fun _ t => t = { s₁ with store := t.store } := by
    refine ensures_of_uses uses_downgrade_onAgentsAndRules (fun op hop t ht => ?_) rfl
    rw [eq_of_onAgentsAndRules hop t, ht]
  refine (hwithin.and hrest).mono fun result t ⟨hwithin, ht⟩ => ?_
  rw [hstore] at hwithin
  have heffect : ∀ t' : World S C L, t'.store = t.store → t'.memories = t.memories →
      t'.metrics = t.metrics → (t'.capability = t.capability ∨
        t'.capability = (revokeScope a w c.value t.capability).2) →
      IncidentEffect replica a w c s t' := by
    intro t' hs hm hg hc
    refine ⟨by rw [hs]; exact hwithin, ?_, ?_, ?_⟩
    · rw [← hcapability, ← congrArg World.capability ht]
      exact hc
    · rw [hm, congrArg World.memories ht]
      exact hmemories
    · rw [hg, congrArg World.metrics ht]
      exact hmetrics
  have hlog : t.ledger = s.ledger := (congrArg World.ledger ht).trans hledger
  cases result with
  | error err =>
    refine ⟨heffect t rfl rfl rfl (Or.inl rfl), ?_⟩
    rw [hlog]
  | ok rules =>
    -- the tokens of the scope, and the record
    change Ensures _ (call (.cap (.revokeScope a w c.value)) >>= _) t _
    rw [perform_bind, ensures_call]
    refine ensures_bind.mpr ((ensures_ledgerAppend _).mono fun result t' ⟨ht', hresult⟩ => ?_)
    have hrevoked : IncidentEffect replica a w c s t' := by
      apply heffect t' <;> rw [ht'] <;> first | rfl | exact Or.inr rfl
    rw [← hlog]
    cases result with
    | ok r => exact ⟨hrevoked, hresult⟩
    | error err => exact ⟨hrevoked, hresult⟩

/-! ## What stays -/

/-- The level at which an agent stands, if it is registered. -/
def standing (s : World S C L) (a w : String) (c : AuthorityClass) :
    Option (Except PyError AutonomyLevel) :=
  (getAgent a s.store).map fun agent => agent.autonomyFor w c

/-- Outside the scope a state is the same, up to the agent's count of incidents, the metrics
of the replica and one record. -/
structure StaysInScope (replica : Nat) (a w : String) (c : AuthorityClass)
    (s s' : World S C L) : Prop where
  levels : ∀ a' w' c', ¬ (a' = a ∧ w' = w ∧ c' = c) → standing s' a' w' c' = standing s a' w' c'
  agents : ∀ i, i ≠ a → getAgent i s'.store = getAgent i s.store
  agent : Option.Rel (SameElsewhere w c) (getAgent a s.store) (getAgent a s'.store)
  /-- A rule of another scope is found under its id as before. -/
  rules : ∀ r, r.inScope a w c.value = false → ∀ i,
    getRule i s'.store = some r ↔ getRule i s.store = some r
  rulesFor : ∀ a' w' c', ¬ (a' = a ∧ w' = w ∧ c' = c) → ∀ r,
    r ∈ rulesFor a' w' c'.value s'.store ↔ r ∈ rulesFor a' w' c'.value s.store
  events : ∀ i, getEvent i s'.store = getEvent i s.store
  nonces : ∀ i n, (claimNonce i n s'.store).1 = (claimNonce i n s.store).1
  issued : ∀ t, issued? s'.capability t = issued? s.capability t
  consumed : ∀ t, isConsumed t s'.capability = isConsumed t s.capability
  /-- Only a token on record for the scope can be revoked. -/
  revoked : ∀ t, (∀ e, issued? s.capability t = some e → e.inScope a w c.value = false) →
    isRevoked t s'.capability = isRevoked t s.capability
  trust : ∀ a' w' c', ¬ (a' = a ∧ w' = w ∧ c' = c) →
    (s'.memories replica).find? a' w' c' = (s.memories replica).find? a' w' c'
  memories : ∀ i, i ≠ replica → s'.memories i = s.memories i
  metrics : s'.metrics = Function.update s.metrics replica
    { s.metrics replica with incidents := (s.metrics replica).incidents + 1 }
  ledger : AuditLog.records s'.ledger = AuditLog.records s.ledger ∨
    OneMore "incident.recorded" s.ledger s'.ledger

omit [AuditLog L] [LawfulAuditLog L] in
/-- The rules of another scope are other rules. -/
private theorem inScope_of_ne {r : DelegationRule} {a' w' : String} {c' : AuthorityClass}
    (hne : ¬ (a' = a ∧ w' = w ∧ c' = c)) (hr : r.inScope a' w' c'.value = true) :
    r.inScope a w c.value = false := by
  rw [Bool.eq_false_iff]
  intro hscope
  simp only [DelegationRule.inScope, Bool.and_eq_true, decide_eq_true_eq] at hr hscope
  refine hne ⟨hr.1.1.symm.trans hscope.1.1, hr.1.2.symm.trans hscope.1.2, ?_⟩
  exact AuthorityClass.value_injective (hr.2.symm.trans hscope.2)

/-- An incident is counted under its own key. -/
theorem find?_recordIncident_ne (m : DelegationMemory) (created now : String) {a' w' : String}
    {c' : AuthorityClass} (hne : ¬ (a' = a ∧ w' = w ∧ c' = c)) :
    (m.recordIncident a w c created now).2.find? a' w' c' = m.find? a' w' c' := by
  have hne : ¬ (a = a' ∧ w = w' ∧ c = c') := fun ⟨ha, hw, hc⟩ => hne ⟨ha.symm, hw.symm, hc.symm⟩
  unfold DelegationMemory.recordIncident
  dsimp only
  rw [DelegationMemory.find?_put, if_neg hne, DelegationMemory.find?_get_ne _ _ _ _ _ hne]

omit [Arithmetic F] [LawfulAuditLog L] in
/-- The parts of an incident stay in its scope, each by its own key. -/
theorem IncidentEffect.staysInScope [ScopedRevocation C] {s s' : World S C L}
    (h : IncidentEffect replica a w c s s')
    (hledger : AuditLog.records s'.ledger = AuditLog.records s.ledger ∨
      OneMore "incident.recorded" s.ledger s'.ledger) : StaysInScope replica a w c s s' where
  levels a' w' c' hne := by
    unfold standing
    rw [getAgent_eq, getAgent_eq]
    by_cases ha : a' = a
    · subst ha
      have hagent := h.store.agent
      generalize (view s.store).agents a' = x at hagent
      generalize (view s'.store).agents a' = y at hagent
      cases hagent with
      | none => rfl
      | some hsame => exact congrArg some (hsame.autonomyFor fun heq => hne ⟨rfl, heq⟩)
    · rw [h.store.agents a' ha]
  agents i hi := by rw [getAgent_eq, getAgent_eq, h.store.agents i hi]
  agent := by
    rw [getAgent_eq, getAgent_eq]
    exact h.store.agent
  rules r hr i := by
    rw [getRule_eq, getRule_eq]
    exact h.store.rule_iff hr i
  rulesFor a' w' c' hne r := by
    rw [mem_rulesFor, mem_rulesFor]
    refine and_congr_left fun hr => ?_
    exact h.store.rule_iff (inScope_of_ne hne hr) r.ruleId
  events i := by rw [getEvent_eq, getEvent_eq, h.store.events]
  nonces i n := by rw [(view_claimNonce _ _ _).1, (view_claimNonce _ _ _).1, h.store.nonces]
  issued t := by
    rcases h.capability with hsame | hrevoked
    · rw [hsame]
    · rw [hrevoked, ScopedRevocation.issued?_revokeScope]
  consumed t := by
    rcases h.capability with hsame | hrevoked
    · rw [hsame]
    · rw [hrevoked, ScopedRevocation.isConsumed_revokeScope]
  revoked t ht := by
    rcases h.capability with hsame | hrevoked
    · rw [hsame]
    · rw [hrevoked, ScopedRevocation.isRevoked_revokeScope _ _ _ _ _ ht]
  trust a' w' c' hne := by
    obtain ⟨created, now, hmemories⟩ := h.memories
    rw [hmemories, Function.update_self, find?_recordIncident_ne _ _ _ hne]
  memories i hi := by
    obtain ⟨created, now, hmemories⟩ := h.memories
    rw [hmemories, Function.update_of_ne hi]
  metrics := h.metrics
  ledger := hledger

variable {cp : ControlPlane P F} [StableStore S] [ScopedRevocation C]

/-- An incident recorded in any reachable state touches only its scope, whether or not it
returns.  Where it returns, its record is on the ledger. -/
theorem incident_stays_in_scope {turns : List (CpTurn F S C L)} {s : World S C L}
    (h : (cp.system o).Runs (World.initial S C L) turns s) (replica : Nat) (a w : String)
    (c : AuthorityClass) (reason : PyStr) (actorId : String) :
    let x := (cp.system o).serve s (replica, .recordIncident a w c reason actorId)
    StaysInScope replica a w c s x.after ∧
      ((∃ answer, x.result = .ok answer) →
        OneMore "incident.recorded" s.ledger x.after.ledger) := by
  intro x
  have hincident : (recordIncident F a w c reason actorId).Ensures
      (worldHandler o cp.ledgerKeys replica) s fun result s' => IncidentEffect replica a w c s s' ∧
        match result with
        | .ok _ => OneMore "incident.recorded" s.ledger s'.ledger
        | .error _ => AuditLog.records s'.ledger = AuditLog.records s.ledger :=
    ensures_incidentEffect (keyed_of_runs h).1 (agentsKept_of_runs h)
  refine (cp.system o).of_ensures (y := x) rfl (Q := fun result s' =>
    StaysInScope replica a w c s s' ∧
      ((∃ answer, result = .ok answer) → OneMore "incident.recorded" s.ledger s'.ledger)) ?_
  refine ensures_bind.mpr (hincident.mono fun result s' ⟨heffect, hledger⟩ => ?_)
  cases result with
  | ok report => exact ⟨heffect.staysInScope (Or.inr hledger), fun _ => hledger⟩
  | error err =>
    exact ⟨heffect.staysInScope (Or.inl hledger), fun ⟨_, hok⟩ => (nomatch hok)⟩

end

private theorem exists_eq_ok {ε α : Type} {x : Except ε α} (h : x.toOption.isSome = true) :
    ∃ answer, x = .ok answer := by
  cases x with
  | ok answer => exact ⟨answer, rfl⟩
  | error err => cases h

/-- An agent with a rule on the sampling rung. -/
def sampledRule : List (Nat × Command) := [
  (0, .registerAgent demoAgent),
  (0, .approveDelegationRule (demoRule .modifyInternalRecord .executeWithSampling) "approver"
    none)]

/-- An incident of the agent in the scope of its rule. -/
theorem demo_incident_stays_in_scope :
    ∃ s x, demoSystem.Runs (World.initial _ _ _)
        (demoSystem.history (World.initial _ _ _) sampledRule) s ∧
      x = demoSystem.serve s
        (0, .recordIncident "agent" "claims" .modifyInternalRecord "wrong record" "operator") ∧
      StaysInScope 0 "agent" "claims" .modifyInternalRecord s x.after ∧
      OneMore "incident.recorded" s.ledger x.after.ledger := by
  have hrun := runs_history (S := demoSystem) (World.initial _ _ _) sampledRule
  have hok : (demoSystem.serve (demoSystem.final (World.initial _ _ _) sampledRule)
      (0, .recordIncident "agent" "claims" .modifyInternalRecord "wrong record"
        "operator")).result.toOption.isSome = true := by
    decide +kernel
  generalize demoSystem.final (World.initial _ _ _) sampledRule = s at hrun hok
  obtain ⟨hstays, hledger⟩ := incident_stays_in_scope hrun 0 "agent" "claims"
    .modifyInternalRecord "wrong record" "operator"
  exact ⟨s, _, hrun, rfl, hstays, hledger (exists_eq_ok hok)⟩

end EarnedAutonomy
