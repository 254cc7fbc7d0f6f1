import EarnedAutonomy.Core.Classifier
import EarnedAutonomy.Core.RuleSearch
import EarnedAutonomy.Core.SignedFields

/-!
# Decisions from signed fields

Whoever alters an event or a token on its way and keeps the payload changes nothing that
is decided.

* `WorkflowEvent.SameRead` is what the search for a rule, the guards and the policy read
  of an event.  It follows from the payload.
* `signed_fields_decide`: the result, for proposals and for verifications.
-/

namespace EarnedAutonomy

open Atomic Prog Service OrderedDict Calendar PyVal

/-! ## Conditions -/

section

variable {a m : PyVal}

private theorem tooSmall_sortKeys_right : tooSmall m (sortKeys a) = tooSmall m a := by
  have hlt := lt_sortKeys_left a m
  cases m <;> cases a <;> first | rfl | exact hlt

private theorem tooLarge_sortKeys_right (h : jsonValue a = true) :
    tooLarge m (sortKeys a) = tooLarge m a := by
  have hlt := lt_sortKeys_right h m
  cases m <;> cases a <;> first | rfl | exact hlt

private theorem tooSmall_sortKeys_left (h : jsonValue m = true) :
    tooSmall (sortKeys m) a = tooSmall m a := by
  have hlt := lt_sortKeys_right h a
  cases m <;> cases a <;> first | rfl | exact hlt

private theorem tooLarge_sortKeys_left : tooLarge (sortKeys m) a = tooLarge m a := by
  have hlt := lt_sortKeys_left m a
  cases m <;> cases a <;> first | rfl | exact hlt

private theorem bound_sortedEntries {d : List (PyKey × PyVal)} (h : jsonValue (.dict d) = true)
    (key : PyKey) : boundOf (sortedEntries d) key = sortKeys (boundOf d key) := by
  unfold boundOf
  rw [lookup_sortedEntries h]
  cases lookup d key <;> rfl

private theorem jsonValue_bound {d : List (PyKey × PyVal)} (h : jsonValue (.dict d) = true)
    (key : PyKey) : jsonValue (boundOf d key) = true := by
  unfold boundOf
  cases hlookup : lookup d key with
  | none => rfl
  | some v =>
    obtain ⟨_, _, hmem⟩ := (lookup_eq_some_iff h).mp hlookup
    exact ((jsonValue_dict_iff.mp h).2 _ hmem).2

/-- A comparison does not see the order of keys in the value. -/
theorem checkExpectation_sortKeys_right (expected : PyVal) {actual : PyVal}
    (h : jsonValue actual = true) :
    checkExpectation expected (sortKeys actual) = checkExpectation expected actual := by
  have heq (expected : PyVal) : (sortKeys actual).eq expected = actual.eq expected :=
    eq_sortKeys_left actual expected
  cases expected with
  | dict bounds =>
    rw [checkExpectation_dict, checkExpectation_dict, tooSmall_sortKeys_right,
      tooLarge_sortKeys_right h]
  | list allowed =>
    rw [checkExpectation, checkExpectation, isIn_sortKeys h]
  | _ => simp only [checkExpectation, heq]

/-- A comparison does not see the order of keys in the expectation. -/
theorem checkExpectation_sortKeys_left (actual : PyVal) {expected : PyVal}
    (h : jsonValue expected = true) :
    checkExpectation (sortKeys expected) actual = checkExpectation expected actual := by
  cases expected with
  | dict bounds =>
    rw [sortKeys_dict, checkExpectation_dict, checkExpectation_dict, bound_sortedEntries h,
      bound_sortedEntries h, tooSmall_sortKeys_left (jsonValue_bound h _), tooLarge_sortKeys_left]
  | list allowed =>
    have hisIn : isIn actual (allowed.map sortKeys) = isIn actual allowed := by
      rw [isIn, isIn, List.any_map]
      congr 1
      funext x
      rw [Function.comp_apply, identical_sortKeys_left, eq_sortKeys_left]
    rw [sortKeys, sortItems_eq_map, checkExpectation, checkExpectation, hisIn]
  | tuple items => cases h
  | _ => rfl

/-- Conditions do not see the order of keys in the values. -/
theorem conditionFailure_congr {values values' : Mapping} (h : values.Same values')
    (conditions : Mapping) : conditionFailure conditions values =
      conditionFailure conditions values' := by
  induction conditions with
  | nil => rfl
  | cons c rest ih =>
    obtain ⟨key, expected⟩ := c
    have hactual := (h.getD (v := .none) rfl key).congr
      fun _ hv => checkExpectation_sortKeys_right expected hv
    rw [conditionFailure, conditionFailure, hactual, ih]

variable {conditions conditions' values : Mapping}

theorem nodup_keys_of_jsonValue (h : jsonValue conditions.toVal = true) :
    (conditions.map Prod.fst).Nodup := by
  obtain ⟨hdistinct, _⟩ := jsonValue_dict_iff.mp h
  rw [List.map_map] at hdistinct
  refine List.pairwise_map.mpr ((List.pairwise_map.mp hdistinct).imp fun {a b} hne heq => ?_)
  have hsame : (PyKey.str a.1).same (.str b.1) = true := str_same_iff.mpr (congrArg _ heq.symm)
  exact absurd (hsame.symm.trans hne) (by decide)

theorem checkExpectation_congr {expected expected' : PyVal} (h : expected.Alike expected')
    (actual : PyVal) : checkExpectation expected actual = checkExpectation expected' actual :=
  h.congr (f := (checkExpectation · actual)) fun _ hv => checkExpectation_sortKeys_left actual hv

/-- Whether conditions are met does not depend on the order in which they are listed. -/
theorem conditionFailure_eq_none_of_alike (h : conditions.toVal.Alike conditions'.toVal)
    (hmet : conditionFailure conditions values = .ok none) :
    conditionFailure conditions' values = .ok none := by
  rw [conditionFailure_eq_none_iff] at hmet ⊢
  intro (key, expected') hmem
  have hkey := Mapping.same_of_alike h key
  rw [(Dict.get?_eq_some_iff (nodup_keys_of_jsonValue h.right)).mpr hmem] at hkey
  cases hget : Dict.get? conditions key with
  | none =>
    rw [hget] at hkey
    cases hkey
  | some expected =>
    rw [hget] at hkey
    cases hkey with
    | some halike =>
      rw [← checkExpectation_congr halike]
      exact hmet _ (Dict.mem_of_get? hget)

/-- The first condition that fails depends on that order, and on nothing else. -/
theorem conditionFailure_of_order (h : conditions.Same conditions')
    (hnodup : (conditions.map Prod.fst).Nodup)
    (horder : conditions.map Prod.fst = conditions'.map Prod.fst) :
    conditionFailure conditions values = conditionFailure conditions' values := by
  induction conditions generalizing conditions' with
  | nil =>
    rw [List.map_nil, eq_comm, List.map_eq_nil_iff] at horder
    rw [horder]
  | cons c rest ih =>
    cases conditions' with
    | nil => cases horder
    | cons c' rest' =>
      obtain ⟨key, expected⟩ := c
      obtain ⟨key', expected'⟩ := c'
      rw [List.map_cons, List.map_cons, List.cons.injEq] at horder
      obtain ⟨rfl, horder⟩ : key = key' ∧ _ := horder
      rw [List.map_cons, List.nodup_cons] at hnodup
      have hhead := h key
      rw [Dict.get?_cons, Dict.get?_cons, if_pos rfl, if_pos rfl] at hhead
      cases hhead with
      | some halike =>
        have hrest : Mapping.Same rest rest' := by
          intro k
          by_cases hk : key = k
          · subst hk
            rw [Dict.get?_eq_none_iff.mpr hnodup.1, Dict.get?_eq_none_iff.mpr (horder ▸ hnodup.1)]
            exact .none
          · have hk' := h k
            rwa [Dict.get?_cons, Dict.get?_cons, if_neg hk, if_neg hk] at hk'
        rw [conditionFailure, conditionFailure, checkExpectation_congr halike,
          ih hrest hnodup.2 horder]

end

/-! ## What is read of an event -/

namespace WorkflowEvent

/-- What the search for a rule, the guards and the policy read. -/
structure SameRead (e e' : WorkflowEvent) : Prop where
  agentId : e.agentId = e'.agentId
  workflowId : e.workflowId = e'.workflowId
  authorityRequested : e.authorityRequested = e'.authorityRequested
  requiresExecution : e.requiresExecution = e'.requiresExecution
  confidence : e.confidence = e'.confidence
  evidence : e.evidence.isEmpty = e'.evidence.isEmpty
  metadata : e.metadata.Same e'.metadata

variable {e e' : WorkflowEvent}

theorem SameSigned.sameRead (h : e.SameSigned e') : e.SameRead e' := by
  have hempty : e.evidence.isEmpty = e'.evidence.isEmpty := by
    have hevidence := h.evidence
    generalize e.evidence = xs at hevidence
    generalize e'.evidence = ys at hevidence
    cases hevidence <;> rfl
  exact ⟨h.agentId, h.workflowId, h.authorityRequested, h.requiresExecution, h.confidence, hempty,
    Mapping.same_of_alike h.metadata⟩

/-- The injected workflows come from the agent. -/
theorem SameRead.withApprovedWorkflows (h : e.SameRead e') (agent : AgentIdentity) :
    (ControlPlane.withApprovedWorkflows e agent).SameRead
      (ControlPlane.withApprovedWorkflows e' agent) := by
  have hworkflows : jsonValue (textsToVal agent.approvedWorkflows) = true := by
    rw [textsToVal, jsonValue, jsonItems_iff, List.forall_mem_map]
    exact fun _ _ => rfl
  obtain ⟨hagent, hworkflow, hclass, hexecution, hconfidence, hevidence, hmetadata⟩ := h
  exact ⟨hagent, hworkflow, hclass, hexecution, hconfidence, hevidence,
    hmetadata.setdefault hworkflows _⟩

theorem SameRead.meta? (h : e.SameRead e') (key : PyStr) : (e.meta? key).Alike (e'.meta? key) :=
  h.metadata.getD rfl key

/-- A flag is set in both or in neither. -/
theorem SameRead.flag (h : e.SameRead e') (key : PyStr) :
    (e.meta? key).isTrue = (e'.meta? key).isTrue :=
  (h.meta? key).congr fun v _ => isTrue_sortKeys v

end WorkflowEvent

open WorkflowEvent

section

variable {e e' : WorkflowEvent}

theorem DelegationRule.matchesEvent_congr (h : e.SameRead e') (r : DelegationRule) :
    r.matchesEvent e = r.matchesEvent e' := by
  unfold DelegationRule.matchesEvent
  rw [h.workflowId, h.agentId, h.authorityRequested, conditionFailure_congr h.metadata]

theorem firstMatch_congr (h : e.SameRead e') (rules : List DelegationRule) :
    firstMatch e rules = firstMatch e' rules := by
  induction rules with
  | nil => rfl
  | cons r rest ih => rw [firstMatch, firstMatch, r.matchesEvent_congr h, ih]

theorem outsideKnownWorkflow_congr (h : e.SameRead e') :
    outsideKnownWorkflow e = outsideKnownWorkflow e' := by
  have happroved := h.metadata.getD (v := .list []) rfl "_approved_workflows"
  have htruthy := happroved.congr (f := truthy) fun v _ => truthy_sortKeys v
  have hcontains := happroved.congr (f := (containsText · e.workflowId))
    fun _ hv => containsText_sortKeys hv _
  unfold outsideKnownWorkflow
  dsimp only
  rw [htruthy, hcontains, h.workflowId]

/-- A guard looks at what is read. -/
theorem guard?_congr (h : e.SameRead e') {name : String}
    {fires : WorkflowEvent → Except PyError Bool} (hname : guard? name = some fires) :
    fires e = fires e' := by
  unfold guard? at hname
  repeat' split at hname
  all_goals cases hname
  · show Except.ok e.evidence.isEmpty = _
    rw [h.evidence]
  · show Except.ok (e.confidence.lt _) = _
    rw [h.confidence]
  · exact outsideKnownWorkflow_congr h
  all_goals exact congrArg Except.ok (h.flag _)

theorem evaluateGuards_congr (h : e.SameRead e') (names : List String) :
    evaluateGuards names e = evaluateGuards names e' := by
  induction names with
  | nil => rfl
  | cons name rest ih =>
    rw [evaluateGuards, evaluateGuards, ih]
    cases hname : guard? name with
    | none => rfl
    | some fires =>
      dsimp only
      rw [guard?_congr h hname]

theorem BoundaryRule.matchesEvent_congr (h : e.SameRead e') (b : BoundaryRule) :
    b.matchesEvent e = b.matchesEvent e' := by
  have hall (c : PyStr × PyVal) : (e.meta? c.1).eq c.2 = (e'.meta? c.1).eq c.2 :=
    (h.meta? c.1).congr (f := (PyVal.eq · c.2)) fun v _ => eq_sortKeys_left v c.2
  unfold BoundaryRule.matchesEvent
  simp only [h.authorityRequested, hall]

theorem statusForLevel_congr (h : e.SameRead e') (effective : AutonomyLevel) (risk : RiskLevel)
    (consequences : List ConsequenceClass) (policyName : Option PyStr) (ceiling : AutonomyLevel)
    (clamped : Bool) (rule? : Option DelegationRule) :
    statusForLevel e effective risk consequences policyName ceiling clamped rule? =
      statusForLevel e' effective risk consequences policyName ceiling clamped rule? := by
  unfold statusForLevel
  rw [h.authorityRequested, h.requiresExecution, h.flag]

/-- The policy looks at what is read. -/
theorem evaluate_of_sameRead (h : e.SameRead e') (engine : PolicyEngine) (current : AutonomyLevel)
    (consequences : List ConsequenceClass) (risk : RiskLevel) (rule? : Option DelegationRule) :
    engine.evaluate e current consequences risk rule? =
      engine.evaluate e' current consequences risk rule? := by
  have hboundary : (fun b : BoundaryRule => b.matchesEvent e) = fun b => b.matchesEvent e' :=
    funext fun b => b.matchesEvent_congr h
  unfold PolicyEngine.evaluate
  simp only [hboundary, h.authorityRequested, evaluateGuards_congr h, statusForLevel_congr h]

end

/-! ## Classifiers -/

/-- The classifier looks at signed fields only. -/
def ReadsSigned (classify : Classifier) : Prop :=
  ∀ e e' : WorkflowEvent, e.SameSigned e' → classify e = classify e'

theorem RuleBasedClassifier.readsSigned (search : String → PyStr → Bool) :
    ReadsSigned (RuleBasedClassifier.classify search) := by
  intro e e' h
  have hread := h.sameRead
  have hclaims : e.evidence.map EvidenceItem.claim = e'.evidence.map EvidenceItem.claim := by
    rw [← List.forall₂_eq_eq_eq, List.forall₂_map_left_iff, List.forall₂_map_right_iff]
    exact h.evidence.imp fun _ _ hsame => hsame.claim
  have htext : scannedText e = scannedText e' := by
    unfold scannedText
    rw [h.intent, h.proposedNextState, h.expectedEffect, hclaims]
  have hclassification : classification search e = classification search e' := by
    unfold classification noteExecution base
    rw [htext, h.authorityRequested, hread.flag, hread.flag, h.confidence, h.requiresExecution,
      hread.evidence]
  unfold RuleBasedClassifier.classify
  rw [hclassification]

/-! ## Proposals -/

section

open ControlPlane Store LawfulStore OrderedStore

variable {P : Primitives} {F : Type} (cp : ControlPlane P F)
variable {S C L : Type} [Store S] [LawfulStore S] [OrderedStore S]

/-- In strict mode, either both events carry a signature under the key registered for the
agent, or neither does. -/
def ControlPlane.SignedAlike (w : World S C L) (e e' : WorkflowEvent) : Prop :=
  cp.config.strictMode = true → ∀ agent, getAgent e.agentId w.store = some agent →
    (present e.signature = true ∧ signedBy (P := P) agent e = .ok true ↔
      present e'.signature = true ∧ signedBy (P := P) agent e' = .ok true)

variable {cp} {o : Oracle} {w w' : World S C L} {e e' : WorkflowEvent} {p : Packet}
variable {agent : AgentIdentity}

omit [LawfulStore S] [OrderedStore S] in
theorem ControlPlane.SignedAlike.symm (h : cp.SignedAlike w e e') (hsame : e.SameSigned e') :
    cp.SignedAlike w e' e := by
  intro hstrict agent hagent
  rw [← hsame.agentId] at hagent
  exact (h hstrict agent hagent).symm

omit [LawfulStore S] [OrderedStore S] in
/-- Who is registered on the fly is registered under signed fields. -/
theorem found_congr (h : e.SameSigned e') : cp.found o w e = cp.found o w e' := by
  have hauto (createdAt : String) : autoRegistered e createdAt = autoRegistered e' createdAt := by
    unfold autoRegistered
    rw [h.agentId, h.humanOwnerId, h.workflowId]
  unfold found
  rw [h.agentId]
  simp only [hauto]

/-- The same assessment, of the other event. -/
theorem assessment_congr (h : e.SameSigned e') (hclassify : ReadsSigned cp.classify) (s : S) :
    cp.assessment s e' agent =
      (cp.assessment s e agent).map
        fun p => { p with event := withApprovedWorkflows e' agent } := by
  have hread := h.sameRead
  have hmatch : matchingRule e' s = matchingRule e s := by
    rw [matchingRule_eq, matchingRule_eq, firstMatch_congr hread]
  unfold assessment
  rw [← hclassify e e' h, ← h.workflowId, ← h.authorityRequested, hmatch]
  simp only [evaluate_of_sameRead (hread.withApprovedWorkflows agent)]
  cases cp.classify e with
  | error err => rfl
  | ok classified =>
    cases agent.autonomyFor e.workflowId e.authorityRequested with
    | error err => rfl
    | ok current =>
      cases matchingRule e s with
      | error err => rfl
      | ok rule? =>
        obtain ⟨consequences, risk, reasons⟩ := classified
        show (cp.policyEngine.evaluate (withApprovedWorkflows e' agent) current consequences risk
          rule? >>= _) = Except.map _ (cp.policyEngine.evaluate _ current consequences risk
          rule? >>= _)
        cases cp.policyEngine.evaluate (withApprovedWorkflows e' agent) current consequences risk
          rule? with
        | error err => rfl
        | ok decision => rfl

omit [LawfulStore S] [OrderedStore S] in
/-- A known agent is who is found, and in strict mode nobody else is. -/
theorem getAgent_of_found (hstrict : cp.config.strictMode = true)
    (h : cp.found o w e = some (agent, w')) : getAgent e.agentId w.store = some agent := by
  unfold found at h
  split at h
  · cases h
    assumption
  · rw [if_pos hstrict] at h
    cases h

omit [LawfulStore S] [OrderedStore S] in
theorem authentic_of_signedAlike (hsigned : cp.SignedAlike w e e')
    (hfound : cp.found o w e = some (agent, w')) (h : cp.Authentic agent e) :
    cp.Authentic agent e' := by
  refine ⟨h.active, fun hstrict => ?_⟩
  exact (hsigned hstrict agent (getAgent_of_found hstrict hfound)).mp (h.signed hstrict)

/-- The other event is assessed alike. -/
theorem Assesses.of_sameSigned (hsame : e.SameSigned e') (hclassify : ReadsSigned cp.classify)
    (hsigned : cp.SignedAlike w e e') (h : Assesses cp o w e w' p) :
    Assesses cp o w e' w' { p with event := withApprovedWorkflows e' p.agent } := by
  obtain ⟨hfound, hauthentic, hfree, hanswered⟩ := h
  refine ⟨?_, authentic_of_signedAlike hsigned hfound hauthentic, ?_, ?_⟩
  · rwa [← found_congr hsame]
  · rwa [← hsame.agentId, ← hsame.nonce]
  · rw [assessment_congr hsame hclassify, hanswered]
    rfl

/-- An event that has a payload can be recorded. -/
theorem recordable_of_signingPayload {b : Bytes} (h : e.signingPayload = .ok b) : e.Recordable :=
  WorkflowEvent.encodable_signingDict.mp (encodable_iff.mpr ⟨b, h⟩)

theorem grantUnder_congr (h : e.SameRead e') (rule? : Option DelegationRule)
    (status : AutonomyStatus) : grantUnder e rule? status = grantUnder e' rule? status := by
  unfold grantUnder
  rw [h.agentId, h.workflowId, h.authorityRequested]

variable [CapabilityStateStore C] [AuditLog L] [LawfulAuditLog L] [LawfulRecorder L] [Arithmetic F]

/-- What one event brings about the other does. -/
theorem outcome_of_sameSigned (replica : Nat) (hsame : e.SameSigned e')
    (hclassify : ReadsSigned cp.classify) (hsigned : cp.SignedAlike w e e')
    (hrecordable : e'.Recordable) {out : Outcome}
    (h : outcomeOf ((cp.system o).serve w (replica, .proposeEvent e)).result = some out) :
    outcomeOf ((cp.system o).serve w (replica, .proposeEvent e')).result = some out := by
  obtain ⟨w', p, hassesses, hexpires, hencodable, rfl⟩ := (outcome_iff replica).mp h
  have hevent : p.event = withApprovedWorkflows e p.agent := by
    obtain ⟨_, _, _, _, _, _, _, _, _, _, hp⟩ := assessment_eq_ok_iff.mp hassesses.answered
    rw [hp]
  refine (outcome_iff replica).mpr
    ⟨w', _, hassesses.of_sameSigned hsame hclassify hsigned, hexpires, ?_, ?_⟩
  · obtain ⟨_, hrest⟩ := Packet.encodable_ledgerDict.mp hencodable
    exact Packet.encodable_ledgerDict.mpr
      ⟨WorkflowEvent.recordable_withApprovedWorkflows.mpr hrecordable, hrest⟩
  · have hgrant := grantUnder_congr (hsame.sameRead.withApprovedWorkflows p.agent) p.matchingRule
      p.decision.status
    unfold Packet.granted
    rw [hevent, hgrant]

end

/-! ## Verifications -/

namespace CapabilityService

variable {t u : CapabilityToken} {action : Action}

theorem rankExceeded_congr (h : t.SameSigned u) (context : Mapping) :
    rankExceeded t context = rankExceeded u context := by
  unfold rankExceeded
  rw [h.maxConsequenceRank]

/-- A token covers an action if one with the same conditions in another order does. -/
theorem scopeRefusal_eq_none_of_sameSigned (h : t.SameSigned u)
    (hcovers : scopeRefusal t action = .ok none) : scopeRefusal u action = .ok none := by
  rw [scopeRefusal_eq_none_iff] at hcovers ⊢
  obtain ⟨hagent, hworkflow, hclass, hrank, hconditions⟩ := hcovers
  rw [h.agentId] at hagent
  rw [h.workflowId] at hworkflow
  rw [h.authorityClass] at hclass
  rw [rankExceeded_congr h] at hrank
  exact ⟨hagent, hworkflow, hclass, hrank,
    conditionFailure_eq_none_of_alike h.conditions hconditions⟩

/-- With the conditions in one order, a refusal is the same too. -/
theorem scopeRefusal_of_order (h : t.SameSigned u)
    (horder : t.conditions.map Prod.fst = u.conditions.map Prod.fst) :
    scopeRefusal t action = scopeRefusal u action := by
  have hconditions : conditionFailure t.conditions action.context =
      conditionFailure u.conditions action.context :=
    conditionFailure_of_order (Mapping.same_of_alike h.conditions)
      (nodup_keys_of_jsonValue h.conditions.left) horder
  unfold scopeRefusal
  rw [h.agentId, h.workflowId, h.authorityClass, rankExceeded_congr h, hconditions]

/-- The verification accepted. -/
def Accepts : Except PyError VerificationResult → Prop
  | .ok r => r.ok = true
  | .error _ => False

/-- The two verifications leave one state, and accept both or neither. -/
def SameVerdict {W : Type} (x y : Except PyError VerificationResult × W) : Prop :=
  x.2 = y.2 ∧ (Accepts x.1 ↔ Accepts y.1)

variable {P : Primitives} {svc : CapabilityService P} {W : Type}

/-- The gates behind the check of the scope. -/
private def scopeGate (t : CapabilityToken) (refusal : Except PyError (Option PyStr)) :
    CapProg VerificationResult := do
  match ← Prog.ofExcept refusal with
  | some reason => return refuse t reason
  | Option.none => consumeGate t

/-- Refused for another reason is refused as well. -/
private theorem sameVerdict_scopeGate {refusal refusal' : Except PyError (Option PyStr)}
    (h : refusal = .ok none ↔ refusal' = .ok none) (handler : Handler CapRes W) (w : W) :
    SameVerdict ((scopeGate t refusal).run handler w) ((scopeGate t refusal').run handler w) := by
  have refused {refusal : Except PyError (Option PyStr)} (hr : refusal ≠ .ok none) :
      ((scopeGate t refusal).run handler w).2 = w ∧
        ¬ Accepts ((scopeGate t refusal).run handler w).1 := by
    unfold scopeGate
    cases refusal with
    | error err => exact ⟨rfl, id⟩
    | ok reason? =>
      cases reason? with
      | none => exact absurd rfl hr
      | some reason => exact ⟨rfl, Bool.false_ne_true⟩
  by_cases hr : refusal = .ok none
  · rw [hr, h.mp hr]
    exact ⟨rfl, Iff.rfl⟩
  · obtain ⟨hstate, hnot⟩ := refused hr
    obtain ⟨hstate', hnot'⟩ := refused fun hr' => hr (h.mpr hr')
    exact ⟨hstate.trans hstate'.symm, iff_of_false hnot hnot'⟩

private theorem verifyForAction_eq : svc.verifyForAction t action = (do
    if ← Prog.ofExcept (svc.signatureValid t) then
      if ← capCall (.isRevoked t.tokenId) then return refuse t "token revoked"
      else
        match fromisoformat t.expiresAt with
        | Option.none => return refuse t "malformed expiry"
        | some expires =>
            let now ← capCall .utcNow
            if ← Prog.ofExcept (hasExpired now expires) then return refuse t "token expired"
            else scopeGate t (scopeRefusal t action)
    else return refuse t "invalid token signature") := rfl

/-- Two tokens with one payload are verified alike, if both are signed or neither is. -/
theorem sameVerdict_of_sameSigned (h : t.SameSigned u)
    (hsigned : svc.signatureValid t = svc.signatureValid u) (action : Action)
    (handler : Handler CapRes W) (w : W) :
    SameVerdict ((svc.verifyForAction t action).run handler w)
      ((svc.verifyForAction u action).run handler w) := by
  have hscope : scopeRefusal t action = .ok none ↔ scopeRefusal u action = .ok none :=
    ⟨scopeRefusal_eq_none_of_sameSigned h, scopeRefusal_eq_none_of_sameSigned h.symm⟩
  have hgate := sameVerdict_scopeGate (t := t) hscope handler
  have hlast : scopeGate u = scopeGate t := by
    unfold scopeGate consumeGate refuse accept
    rw [h.tokenId, h.singleUse]
  have hrefuse : refuse u = refuse t := by
    unfold refuse
    rw [h.tokenId]
  have hsame (x : Except PyError VerificationResult × W) : SameVerdict x x := ⟨rfl, Iff.rfl⟩
  rw [verifyForAction_eq, verifyForAction_eq, ← hsigned, ← h.tokenId, ← h.expiresAt, hlast, hrefuse]
  cases svc.signatureValid t with
  | error err => exact hsame _
  | ok valid =>
    cases valid with
    | false => exact hsame _
    | true =>
      simp only [ofExcept_ok, done_bind, if_true, perform_bind, run_call]
      cases (handler (.isRevoked t.tokenId) w).1 with
      | true => exact hsame _
      | false =>
        simp only [Bool.false_eq_true, if_false]
        cases fromisoformat t.expiresAt with
        | none => exact hsame _
        | some expires =>
          simp only [run_call]
          cases hasExpired (handler .utcNow (handler (.isRevoked t.tokenId) w).2).1 expires with
          | error err => exact hsame _
          | ok expired =>
            cases expired with
            | true => exact hsame _
            | false => exact hgate _

/-- With the conditions in one order, so is everything they are answered with. -/
theorem verifyForAction_of_order (h : t.SameSigned u)
    (hsigned : svc.signatureValid t = svc.signatureValid u)
    (horder : t.conditions.map Prod.fst = u.conditions.map Prod.fst) (action : Action) :
    svc.verifyForAction t action = svc.verifyForAction u action := by
  unfold verifyForAction consumeGate refuse accept
  rw [hsigned, scopeRefusal_of_order h horder, h.tokenId, h.expiresAt, h.singleUse]

end CapabilityService

/-! ## The result -/

section

open ControlPlane Store CapabilityService

variable {P : Primitives} {F : Type} [Arithmetic F] {S C L : Type} [Store S] [LawfulStore S]
  [OrderedStore S] [CapabilityStateStore C] [AuditLog L] [LawfulAuditLog L] [LawfulRecorder L]

/-- A payload fixes all that is decided, but for the signature.

Two events with one payload agree on every field but the event id, the timestamp and the
signature.  So if the classifier looks at signed fields only, as the default one does,
and their signatures pass alike, a proposal of either is answered with one decision and
one grant, or of neither.

Two tokens with one payload agree on every field but the signature.  So if both are signed
or neither is, both are accepted or neither, with the same effects, and the same reasons
where their conditions are listed in one order. -/
theorem signed_fields_decide (cp : ControlPlane P F) (hclassify : ReadsSigned cp.classify)
    (o : Oracle) (replica : Nat) (w : World S C L) :
    (∀ search, ReadsSigned (RuleBasedClassifier.classify search)) ∧
    (∀ (e e' : WorkflowEvent) (b : Bytes), e.JsonMetadata → e'.JsonMetadata →
      e.signingPayload = .ok b → e'.signingPayload = .ok b →
      e.SameSigned e' ∧ (cp.SignedAlike w e e' →
        outcomeOf ((cp.system o).serve w (replica, .proposeEvent e)).result =
          outcomeOf ((cp.system o).serve w (replica, .proposeEvent e')).result)) ∧
    ∀ (t u : CapabilityToken) (b : Bytes), jsonValue t.conditions.toVal = true →
      jsonValue u.conditions.toVal = true → t.signingPayload = .ok b → u.signingPayload = .ok b →
      t.SameSigned u ∧ ∀ svc : CapabilityService P, svc.signatureValid t = svc.signatureValid u →
        ∀ (action : Action) (W : Type) (handler : Handler CapRes W) (v : W),
          SameVerdict ((svc.verifyForAction t action).run handler v)
            ((svc.verifyForAction u action).run handler v) ∧
          (t.conditions.map Prod.fst = u.conditions.map Prod.fst →
            (svc.verifyForAction t action).run handler v =
              (svc.verifyForAction u action).run handler v) := by
  refine ⟨RuleBasedClassifier.readsSigned, fun e e' b hjson hjson' hb hb' => ?_,
    fun t u b hjson hjson' hb hb' => ?_⟩
  · have hsame := WorkflowEvent.sameSigned_of_payload hjson hjson' hb hb'
    refine ⟨hsame, fun hsigned => Option.ext fun out => ?_⟩
    constructor
    · apply outcome_of_sameSigned replica hsame hclassify hsigned
      exact recordable_of_signingPayload hb'
    · apply outcome_of_sameSigned replica hsame.symm hclassify (hsigned.symm hsame)
      exact recordable_of_signingPayload hb
  · have hsame := CapabilityToken.sameSigned_of_payload hjson hjson' hb hb'
    refine ⟨hsame, fun svc hsigned action W handler v => ⟨?_, fun horder => ?_⟩⟩
    · exact sameVerdict_of_sameSigned hsame hsigned action handler v
    · rw [verifyForAction_of_order hsame hsigned horder action]

end

/-! ### Signatures and orders -/

/-- A token signed by the issuer. -/
def signedToken : CapabilityToken where
  tokenId := "cap_1"
  agentId := "agent"
  workflowId := "claims"
  authorityClass := .modifyInternalRecord
  maxConsequenceRank := 2
  conditions := []
  issuedAt := "2026-01-01T12:00:00+00:00"
  expiresAt := "2026-01-01T13:00:00+00:00"
  nonce := "n1"
  singleUse := true
  issuer := "control-plane"
  signature := some "issuer"

/-- The agent is registered, and nothing was proposed yet. -/
def knownWorld : SqlWorld := demoSystem.final (World.initial _ _ _) [(0, .registerAgent demoAgent)]

/-- What a token is verified with, on its own. -/
def demoVerification (t : CapabilityToken) (action : CapabilityService.Action) :
    Except PyError CapabilityService.VerificationResult × CapWorld InMemoryCapabilityStore :=
  (demoPlane.capabilityService.verifyForAction t action).run
    (capHandler (demoOracle fun _ => demoHour 12)) ⟨CapabilityStateStore.empty, 0, 0⟩

/-- The signature is not part of the payload: with another one an event is turned away.
And the JSON text of a tuple is that of a list, which a condition tells apart. -/
theorem payload_leaves_open :
    let e := demoEvent true
    let e' := { demoEvent true with signature := some "forged" }
    let t := { signedToken with conditions := [("region", .list [.int 1])] }
    let u := { signedToken with conditions := [("region", .tuple [.int 1])] }
    let action : CapabilityService.Action :=
      ⟨"agent", "claims", .modifyInternalRecord, [("region", .int 1)]⟩
    e.JsonMetadata ∧ e'.JsonMetadata ∧ e.signingPayload.isOk = true ∧
      e.signingPayload = e'.signingPayload ∧
      (Store.getEvent e.eventId knownWorld.store).isSome = false ∧
      (outcomeOf (demoSystem.serve knownWorld (0, .proposeEvent e)).result).isSome = true ∧
      (outcomeOf (demoSystem.serve knownWorld (0, .proposeEvent e')).result).isSome = false ∧
      t.signingPayload.isOk = true ∧ t.signingPayload = u.signingPayload ∧
      (demoVerification t action).1.map (·.ok) = .ok true ∧
      (demoVerification u action).1.map (·.ok) = .ok false := by
  intro e e' t u action
  refine ⟨?_, ?_, ?_, rfl, ?_, ?_, ?_, ?_, rfl, ?_, ?_⟩
  all_goals decide +kernel

/-- An event with another id and another time, and a token with its conditions in another
order: one decision, and one verdict. -/
theorem unsigned_fields_decide_nothing :
    let cp := { demoPlane with classify := RuleBasedClassifier.classify fun _ _ => false }
    let system : Service PyError (Nat × Command) Res (Answer Dyadic) SqlWorld :=
      cp.system (demoOracle fun _ => demoHour 12)
    let e := { demoEvent true with metadata := [("amount", .int 5), ("region", .text "north")] }
    let e' := { e with eventId := "evt_2", timestamp := "2026-01-02T00:00:00+00:00" }
    let t := { signedToken with
      conditions := [("amount", .dict [("max", .int 9)]), ("region", .text "north")] }
    let u := { signedToken with
      conditions := [("region", .text "north"), ("amount", .dict [("max", .int 9)])] }
    let action : CapabilityService.Action := ⟨"agent", "claims", .modifyInternalRecord, e.metadata⟩
    e.SameSigned e' ∧
      outcomeOf (system.serve knownWorld (0, .proposeEvent e)).result =
        outcomeOf (system.serve knownWorld (0, .proposeEvent e')).result ∧
      (outcomeOf (system.serve knownWorld (0, .proposeEvent e)).result).isSome = true ∧
      t.SameSigned u ∧
      CapabilityService.SameVerdict (demoVerification t action) (demoVerification u action) ∧
      (demoVerification t action).1.map (·.ok) = .ok true := by
  intro cp system e e' t u action
  obtain ⟨_, hevents, htokens⟩ := signed_fields_decide cp
    (RuleBasedClassifier.readsSigned fun _ _ => false) (demoOracle fun _ => demoHour 12) 0
      knownWorld
  obtain ⟨b, hb⟩ : ∃ b, e.signingPayload = .ok b := encodable_iff.mp ⟨by decide, by decide⟩
  obtain ⟨c, hc⟩ : ∃ c, t.signingPayload = .ok c := encodable_iff.mp ⟨by decide, by decide⟩
  have hc' : u.signingPayload = .ok c := by
    have hcanon : canon (.dict u.signingEntries) = canon (.dict t.signingEntries) := rfl
    obtain ⟨_, _, htext⟩ := canonicalBytes_eq_ok_iff.mp hc
    rw [← hcanon] at htext
    exact canonicalBytes_eq_ok_iff.mpr ⟨by decide, by decide, htext⟩
  obtain ⟨hsame, halike⟩ := hevents e e' b (by decide) (by decide) hb hb
  obtain ⟨hsame', hverdict⟩ := htokens t u c (by decide) (by decide) hc hc'
  have hsigned : cp.SignedAlike knownWorld e e' := fun _ _ _ => Iff.rfl
  have hvalid : demoPlane.capabilityService.signatureValid t =
      demoPlane.capabilityService.signatureValid u := by
    unfold CapabilityService.signatureValid
    rw [hc, hc']
  exact ⟨hsame, halike hsigned, by decide +kernel, hsame',
    (hverdict _ hvalid action _ _ _).1, by decide +kernel⟩

end EarnedAutonomy
