import EarnedAutonomy.Core.Recordable
import EarnedAutonomy.Core.Mediation

/-!
# Proposals that raise half way

`propose_event` claims the nonce and stores the event before it looks for a
rule, asks the policy, mints a token and writes to the ledger, and each of
these can raise.

* `run_authenticate`, `run_assess` and `ensures_conclude` are the three parts of
  a proposal, each with what it leaves behind when it raises.
* `proposal_is_all_or_nothing_iff`: a proposal is all or nothing exactly if it
  is turned away before the claim, or completes (`Completes`).
  `failed_proposal_leaves_traces` is one that does neither.
-/

namespace EarnedAutonomy

open Atomic Service Prog Calendar Store LawfulStore

section

variable {P : Primitives} {F : Type} (cp : ControlPlane P F) (o : Oracle)
variable {S C L : Type} [Store S] [CapabilityStateStore C] [AuditLog L]

namespace ControlPlane

/-- Who proposes is active and, in strict mode, has signed the event. -/
structure Authentic (agent : AgentIdentity) (e : WorkflowEvent) : Prop where
  active : agent.active = true
  signed : cp.config.strictMode = true →
    present e.signature = true ∧ signedBy (P := P) agent e = .ok true

/-- What `assess` computes from what it reads. -/
def assessment (s : S) (e : WorkflowEvent) (agent : AgentIdentity) : Except PyError Packet := do
  let (consequences, risk, reasons) ← cp.classify e
  let current ← agent.autonomyFor e.workflowId e.authorityRequested
  let rule? ← matchingRule e s
  let event := withApprovedWorkflows e agent
  let decision ← cp.policyEngine.evaluate event current consequences risk rule?
  return ⟨event, agent, current, decision, reasons, rule?, none⟩

end ControlPlane

variable {cp o} {keys : KeyPair P} {replica : Nat} {w : World S C L} {e : WorkflowEvent}
  {agent : AgentIdentity}

open ControlPlane

variable (cp o keys replica) in
/-- The agent of a proposal is authenticated or turned away, without a further change. -/
theorem run_authenticate_of_proposer {w' : World S C L}
    (hproposer : (cp.proposer e).run (worldHandler o keys replica) w = (.ok agent, w')) :
    (cp.Authentic agent e ∧
        (cp.authenticate e).run (worldHandler o keys replica) w = (.ok agent, w')) ∨
      ¬ cp.Authentic agent e ∧
        ∃ err, (cp.authenticate e).run (worldHandler o keys replica) w = (.error err, w') := by
  unfold authenticate
  rw [run_bind, hproposer]
  dsimp only
  cases hactive : agent.active with
  | false =>
    refine Or.inr ⟨fun h => ?_, _, rfl⟩
    have htrue := h.active
    rw [hactive] at htrue
    cases htrue
  | true =>
    cases hstrict : cp.config.strictMode with
    | false =>
      refine Or.inl ⟨⟨hactive, fun h => ?_⟩, rfl⟩
      rw [hstrict] at h
      cases h
    | true =>
      cases hpresent : present e.signature with
      | false =>
        refine Or.inr ⟨fun h => ?_, _, rfl⟩
        have htrue := (h.signed hstrict).1
        rw [hpresent] at htrue
        cases htrue
      | true =>
        cases hsigned : signedBy (P := P) agent e with
        | error err =>
          refine Or.inr ⟨fun h => ?_, err, rfl⟩
          have htrue := (h.signed hstrict).2
          rw [hsigned] at htrue
          cases htrue
        | ok signed =>
          cases signed with
          | false =>
            refine Or.inr ⟨fun h => ?_, _, rfl⟩
            have htrue := (h.signed hstrict).2
            rw [hsigned] at htrue
            cases htrue
          | true => exact Or.inl ⟨⟨hactive, fun _ => ⟨hpresent, hsigned⟩⟩, rfl⟩

variable (cp o keys replica) in
/-- A registered agent is authenticated or turned away, without a change. -/
theorem run_authenticate (hknown : getAgent e.agentId w.store = some agent) :
    (cp.Authentic agent e ∧
        (cp.authenticate e).run (worldHandler o keys replica) w = (.ok agent, w)) ∨
      ¬ cp.Authentic agent e ∧
        ∃ err, (cp.authenticate e).run (worldHandler o keys replica) w = (.error err, w) := by
  apply run_authenticate_of_proposer
  unfold proposer
  simp only [perform_bind, run_call, worldHandler, hknown, pure_eq_done, run_done]

/-- The event is stored as the store keeps it, or as the proposal has changed it since. -/
def StoredAs [LawfulStore S] (e : WorkflowEvent) (agent : AgentIdentity) (s : S) : Prop :=
  ∃ e', (view s).events e.eventId = some e' ∧
    (e' = keptEvent (S := S) e ∨ e' = withApprovedWorkflows e agent)

variable (cp o keys replica agent) in
/-- What `assess` does after it has claimed the nonce: the event is stored, whatever
comes of it. -/
theorem run_assess [LawfulStore S] (hfree : (view w.store).nonces e.agentId e.nonce = false) :
    ∃ s, (view s).nonces e.agentId e.nonce = true ∧ StoredAs e agent s ∧
      (cp.assess e agent).run (worldHandler o keys replica) w =
        (cp.assessment w.store e agent, { w with store := s }) := by
  obtain ⟨hclaim, hview⟩ := view_claimNonce e.agentId e.nonce w.store
  rw [hfree] at hclaim
  let stored : S := addEvent e (claimNonce e.agentId e.nonce w.store).2
  have hstored : (view stored).nonces e.agentId e.nonce = true ∧ StoredAs e agent stored := by
    have hview' : view stored = _ := view_addEvent e (claimNonce e.agentId e.nonce w.store).2
    rw [StoredAs, hview', hview]
    exact ⟨by simp, _, by simp [(eventScope_kept (S := S) e).1], Or.inl rfl⟩
  have hrule : matchingRule e stored = matchingRule e w.store := by
    rw [matchingRule_addEvent, matchingRule_claimNonce]
  have htouched :
      (view (touchEvent (withApprovedWorkflows e agent) stored)).nonces e.agentId e.nonce = true ∧
        StoredAs e agent (touchEvent (withApprovedWorkflows e agent) stored) := by
    unfold StoredAs
    rcases view_touchEvent (withApprovedWorkflows e agent) stored with h | h
    · rw [h]
      exact hstored
    · rw [h]
      exact ⟨hstored.1, withApprovedWorkflows e agent, by simp [withApprovedWorkflows], Or.inr rfl⟩
  unfold assess assessment
  simp only [perform_bind, run_call, worldHandler, hclaim, Bool.not_false, Bool.not_true,
    Bool.false_eq_true, if_false]
  cases cp.classify e with
  | error err => exact ⟨stored, hstored.1, hstored.2, rfl⟩
  | ok classified =>
    obtain ⟨consequences, risk, reasons⟩ := classified
    cases agent.autonomyFor e.workflowId e.authorityRequested with
    | error err => exact ⟨stored, hstored.1, hstored.2, rfl⟩
    | ok current =>
      simp only [ofExcept_ok, done_bind, run_call, worldHandler]
      change ∃ s, _ ∧ _ ∧ (Prog.ofExcept (matchingRule e stored) >>= _).run _ _ = _
      rw [hrule]
      cases matchingRule e w.store with
      | error err => exact ⟨stored, hstored.1, hstored.2, rfl⟩
      | ok rule? =>
        simp only [ofExcept_ok, done_bind, run_call, worldHandler]
        refine ⟨_, htouched.1, htouched.2, ?_⟩
        change _ = (cp.policyEngine.evaluate (withApprovedWorkflows e agent) current consequences
          risk rule? >>= fun decision => pure _, _)
        cases cp.policyEngine.evaluate (withApprovedWorkflows e agent) current consequences risk
          rule? with
        | error err => rfl
        | ok decision => rfl

/-- A mint succeeds if the token expires within the calendar and can be signed. -/
theorem run_mint {svc : CapabilityService P} {args : MintArgs} (v : CapWorld C) :
    (∃ t, ((svc.mint args).run (capHandler o) v).1 = .ok t) ↔
      (∃ d, CapabilityService.expiry (o.time v.reads) args.ttlSeconds = .ok d) ∧
        args.conditions.toVal.Encodable := by
  unfold CapabilityService.mint
  simp only [perform_bind, run_call, capHandler]
  cases CapabilityService.expiry (o.time v.reads) args.ttlSeconds with
  | error err => simp
  | ok expires =>
    simp only [ofExcept_ok, done_bind, run_call]
    have hpayload := CapabilityToken.exists_signingPayload_iff
      (t := svc.unsignedToken args (o.time v.reads) expires (o.uuid v.draws)
        (o.uuid (v.draws + 1)))
    change _ ↔ (∃ b, _ = Except.ok b) ∧ _
    rw [show args.conditions.toVal.Encodable ↔ _ from hpayload.symm]
    simp only [capHandler]
    cases (svc.unsignedToken args (o.time v.reads) expires (o.uuid v.draws)
        (o.uuid (v.draws + 1))).signingPayload with
    | error err => simp
    | ok payload => simp

/-- An append of the control plane returns exactly if its payload can be encoded. -/
theorem run_ledgerAppend [LawfulAuditLog L] [LawfulRecorder L] {eventType : String}
    {payload : PyVal} {actorId : Option String} :
    (ledgerAppend eventType payload actorId).Ensures (worldHandler o keys replica) w
      fun result w' => w'.store = w.store ∧ w'.memories = w.memories ∧
        ((payload.Encodable ∧ ∃ r r', result = .ok r ∧
            AuditLog.records w'.ledger = AuditLog.records w.ledger ++ [r'] ∧
            ∃ id time, r'.IsFor ⟨eventType, payload, actorId, id, time⟩) ∨
          (¬ payload.Encodable ∧ (∃ err, result = .error err) ∧
            AuditLog.records w'.ledger = AuditLog.records w.ledger)) := by
  have haccepts := LawfulRecorder.append_ok_iff keys ⟨eventType, payload, actorId,
    newId "aud" (o.uuid w.draws), isoformat (o.time w.reads)⟩ w.ledger
  unfold ledgerAppend
  simp only [perform_bind, ensures_call, ensures_ofExcept, worldHandler]
  cases happend : AuditLog.append keys ⟨eventType, payload, actorId,
      newId "aud" (o.uuid w.draws), isoformat (o.time w.reads)⟩ w.ledger with
  | mk result l =>
    rw [happend] at haccepts
    cases result with
    | ok r =>
      obtain ⟨r', hrecords, hfor⟩ := LawfulAuditLog.append_ok _ _ _ _ _ happend
      exact ⟨trivial, trivial, Or.inl ⟨haccepts.mp ⟨r, rfl⟩, r, r', rfl, hrecords, _, _, hfor⟩⟩
    | error err =>
      have hrecords := LawfulAuditLog.append_error _ _ _ _ _ happend
      refine ⟨trivial, trivial, Or.inr ⟨fun h => ?_, ⟨err, rfl⟩, hrecords⟩⟩
      obtain ⟨r, hr⟩ := haccepts.mpr h
      cases hr

/-! ## The rest of a proposal -/

/-- The lifetime of the token for a decision ends within the calendar. -/
def ControlPlane.Expires (cp : ControlPlane P F) (o : Oracle) (w : World S C L)
    (status : AutonomyStatus) : Prop :=
  status.permissive = true →
    ∃ d, CapabilityService.expiry (o.time w.reads) (cp.ttlFor status) = .ok d

/-- What `conclude` does where it returns, and when it returns. -/
structure Concluded (cp : ControlPlane P F) (o : Oracle) (w : World S C L) (p : Packet)
    (result : Except PyError Packet) (w' : World S C L) : Prop where
  store : w'.store = w.store
  returns : (∃ q, result = .ok q) ↔
    cp.Expires o w p.decision.status ∧ p.ledgerDict.Encodable
  recorded : ∀ q, result = .ok q → ∃ r', AuditLog.records w'.ledger =
    AuditLog.records w.ledger ++ [r'] ∧ ∃ id time,
      r'.IsFor ⟨"workflow.event.proposed", q.ledgerDict, some q.event.agentId, id, time⟩

/-- A token is minted where the action may proceed, it expires within the calendar and
its conditions can be signed. -/
theorem ensures_mintFor {rule? : Option DelegationRule} {status : AutonomyStatus} :
    (cp.mintFor e rule? status).Ensures (worldHandler o keys replica) w fun result w' =>
      w'.store = w.store ∧ w'.ledger = w.ledger ∧
        ((∃ t, result = .ok t) ↔ cp.Expires o w status ∧
          (status.permissive = true →
            (cp.grantFor e rule? status).conditions.toVal.Encodable)) := by
  unfold mintFor Expires
  cases hperm : status.permissive with
  | false => simp
  | true =>
    have hmint : (∃ t, ((cp.capabilityService.mint (cp.grantFor e rule? status)).run
        (capHandler o) (capView w)).1 = .ok t) ↔
          (∃ d, CapabilityService.expiry (o.time w.reads) (cp.ttlFor status) = .ok d) ∧
            (cp.grantFor e rule? status).conditions.toVal.Encodable := run_mint (capView w)
    simp only [if_true, ensures_bind, forall_const]
    unfold Ensures
    rw [run_liftCap]
    cases hrun : (cp.capabilityService.mint (cp.grantFor e rule? status)).run (capHandler o)
        (capView w) with
    | mk result v =>
      rw [hrun] at hmint
      cases result with
      | error err => exact ⟨rfl, rfl, by simpa [-encodable_mapping] using hmint⟩
      | ok t => exact ⟨rfl, rfl, by simpa [-encodable_mapping] using hmint⟩

variable (keys replica) in
/-- What `conclude` does, and when it returns. -/
theorem ensures_conclude [LawfulAuditLog L] [LawfulRecorder L] {p : Packet} :
    (cp.conclude p).Ensures (worldHandler o keys replica) w (Concluded cp o w p) := by
  have hconditions : p.ledgerDict.Encodable →
      (cp.grantFor p.event p.matchingRule p.decision.status).conditions.toVal.Encodable := by
    intro hencodable
    have hrule := (Packet.encodable_ledgerDict.mp hencodable).2.2.2.2
    cases hmatch : p.matchingRule with
    | none => simp [grantFor]
    | some rule => exact DelegationRule.encodable_toDict (hrule rule hmatch)
  unfold conclude
  rw [ensures_bind]
  refine ensures_mintFor.mono fun minted w' hmint => ?_
  obtain ⟨hstore, hledger, hminted⟩ := hmint
  cases minted with
  | error err =>
    have hfails : ¬ (cp.Expires o w p.decision.status ∧ p.ledgerDict.Encodable) := by
      intro ⟨hexpires, hencodable⟩
      have := hminted.mpr ⟨hexpires, fun _ => hconditions hencodable⟩
      simp at this
    exact ⟨hstore, by simpa using hfails, by simp⟩
  | ok token =>
    have hexpires := (hminted.mp ⟨token, rfl⟩).1
    simp only [perform_bind, ensures_call, ensures_bind]
    refine run_ledgerAppend.mono fun result w'' happended => ?_
    obtain ⟨hsame, _, hresult⟩ := happended
    have hkept : w''.store = w.store := hsame.trans hstore
    rcases hresult with ⟨hencodable, r, r', rfl, hrecords, hfor⟩ | ⟨hnot, ⟨err, rfl⟩, _⟩
    · refine ⟨hkept, ?_, ?_⟩
      · exact iff_of_true ⟨_, rfl⟩ ⟨hexpires, hencodable⟩
      · intro q hq
        cases hq
        refine ⟨r', ?_, hfor⟩
        rw [← hledger]
        exact hrecords
    · refine ⟨hkept, ?_, ?_⟩
      · exact iff_of_false (by simp) fun h => hnot h.2
      · intro q hq
        cases hq

/-! ## All or nothing -/

/-- Nothing that a proposal can touch has changed. -/
structure Unchanged [LawfulStore S] (w w' : World S C L) : Prop where
  events : (view w'.store).events = (view w.store).events
  nonces : (view w'.store).nonces = (view w.store).nonces
  capability : w'.capability = w.capability
  ledger : w'.ledger = w.ledger

/-- A proposal that raises leaves no trace, and one that is answered leaves exactly one
record. -/
structure AllOrNothing [LawfulStore S] (w : World S C L) (result : Except PyError Packet)
    (w' : World S C L) : Prop where
  raised : ∀ err, result = .error err → Unchanged w w'
  answered : ∀ p, result = .ok p → ∃ r,
    AuditLog.records w'.ledger = AuditLog.records w.ledger ++ [r] ∧ ∃ id time,
      r.IsFor ⟨"workflow.event.proposed", p.ledgerDict, some p.event.agentId, id, time⟩

/-- Nothing raises between the claim of the nonce and the answer: not the classifier,
the search for a rule or the policy, neither the mint nor the ledger. -/
def ControlPlane.Completes (cp : ControlPlane P F) (o : Oracle) (w : World S C L)
    (agent : AgentIdentity) (e : WorkflowEvent) : Prop :=
  ∃ consequences risk reasons current rule? decision,
    cp.classify e = .ok (consequences, risk, reasons) ∧
    agent.autonomyFor e.workflowId e.authorityRequested = .ok current ∧
    matchingRule e w.store = .ok rule? ∧
    cp.policyEngine.evaluate (withApprovedWorkflows e agent) current consequences risk rule? =
      .ok decision ∧
    cp.Expires o w decision.status ∧
    e.Recordable ∧ agent.toDict.Encodable ∧ decision.toDict.Encodable ∧
    (∀ t ∈ reasons, t.isUtf8 = true) ∧ ∀ rule ∈ rule?, rule.toDict.Encodable

theorem assessment_eq_ok_iff {s : S} {p : Packet} :
    cp.assessment s e agent = .ok p ↔ ∃ consequences risk reasons current rule? decision,
      cp.classify e = .ok (consequences, risk, reasons) ∧
      agent.autonomyFor e.workflowId e.authorityRequested = .ok current ∧
      matchingRule e s = .ok rule? ∧
      cp.policyEngine.evaluate (withApprovedWorkflows e agent) current consequences risk rule? =
        .ok decision ∧
      p = ⟨withApprovedWorkflows e agent, agent, current, decision, reasons, rule?, none⟩ := by
  unfold assessment
  simp only [bind_eq_ok_iff]
  constructor
  · rintro ⟨⟨consequences, risk, reasons⟩, hclass, current, hlevel, rule?, hrule, decision,
      hdecision, hp⟩
    exact ⟨_, _, _, _, _, _, hclass, hlevel, hrule, hdecision, (Except.ok.inj hp).symm⟩
  · rintro ⟨consequences, risk, reasons, current, rule?, decision, hclass, hlevel, hrule,
      hdecision, rfl⟩
    exact ⟨_, hclass, _, hlevel, _, hrule, _, hdecision, rfl⟩

omit [CapabilityStateStore C] [AuditLog L] in
/-- What completes is assessed, and its answer is concluded. -/
theorem completes_iff :
    cp.Completes o w agent e ↔ ∃ p, cp.assessment w.store e agent = .ok p ∧
      cp.Expires o w p.decision.status ∧ p.ledgerDict.Encodable := by
  simp only [assessment_eq_ok_iff, Packet.encodable_ledgerDict]
  constructor
  · rintro ⟨consequences, risk, reasons, current, rule?, decision, hclass, hlevel, hrule,
      hdecision, hexpires, hrecordable, hrest⟩
    exact ⟨_, ⟨_, _, _, _, _, _, hclass, hlevel, hrule, hdecision, rfl⟩, hexpires,
      WorkflowEvent.recordable_withApprovedWorkflows.mpr hrecordable, hrest⟩
  · rintro ⟨p, ⟨consequences, risk, reasons, current, rule?, decision, hclass, hlevel, hrule,
      hdecision, rfl⟩, hexpires, hrecordable, hrest⟩
    exact ⟨_, _, _, _, _, _, hclass, hlevel, hrule, hdecision, hexpires,
      WorkflowEvent.recordable_withApprovedWorkflows.mp hrecordable, hrest⟩

omit [CapabilityStateStore C] [AuditLog L] in
/-- What is answered without a token, with an answer that can be recorded, completes. -/
theorem completes_of_heldBack (h : ((cp.assessment w.store e agent).toOption.any fun p =>
      !p.decision.status.permissive && (serializable p.ledgerDict).isOk &&
        isUtf8 p.ledgerDict) = true) : cp.Completes o w agent e := by
  rw [completes_iff]
  cases hassessed : cp.assessment w.store e agent with
  | error err =>
    rw [hassessed] at h
    cases h
  | ok p =>
    rw [hassessed] at h
    simp only [Except.toOption, Option.any_some, Bool.and_eq_true, Bool.not_eq_true'] at h
    obtain ⟨⟨hheld, hserializable⟩, hutf8⟩ := h
    refine ⟨p, rfl, fun hperm => ?_, ?_, hutf8⟩
    · rw [hheld] at hperm
      cases hperm
    · cases hwritten : serializable p.ledgerDict with
      | error err =>
        rw [hwritten] at hserializable
        cases hserializable
      | ok u => rfl

variable (cp o keys replica agent) in
/-- A proposal under a claimed nonce is turned away. -/
theorem run_assess_claimed [LawfulStore S]
    (hclaimed : (view w.store).nonces e.agentId e.nonce = true) :
    ∃ err w', (cp.assess e agent).run (worldHandler o keys replica) w = (.error err, w') ∧
      Unchanged w w' := by
  obtain ⟨hclaim, hview⟩ := view_claimNonce e.agentId e.nonce w.store
  rw [hclaimed] at hclaim
  unfold assess
  simp only [perform_bind, run_call, worldHandler, hclaim, Bool.not_true, Bool.not_false, if_true]
  refine ⟨_, _, rfl, ⟨?_, ?_, rfl, rfl⟩⟩
  · rw [hview]
    rfl
  · rw [hview]
    funext a n
    rw [StoreView.nonces_addNonce]
    by_cases hsame : a = e.agentId ∧ n = e.nonce
    · obtain ⟨rfl, rfl⟩ := hsame
      simp [hclaimed]
    · simp [hsame]

variable (cp o keys replica agent) in
/-- What comes of a proposal after authentication. -/
theorem run_assess_conclude [LawfulStore S] [LawfulAuditLog L] [LawfulRecorder L]
    (hfree : (view w.store).nonces e.agentId e.nonce = false) :
    (cp.assess e agent >>= cp.conclude).Ensures (worldHandler o keys replica) w
      fun result w' => (view w'.store).nonces e.agentId e.nonce = true ∧
        StoredAs e agent w'.store ∧ ((∃ p, result = .ok p) ↔ cp.Completes o w agent e) ∧
        ∀ p, result = .ok p → ∃ r, AuditLog.records w'.ledger = AuditLog.records w.ledger ++ [r] ∧
          ∃ id time, r.IsFor
            ⟨"workflow.event.proposed", p.ledgerDict, some p.event.agentId, id, time⟩ := by
  obtain ⟨s, hclaimed, hstored, hrun⟩ := run_assess cp o keys replica agent hfree
  rw [completes_iff]
  cases hassessed : cp.assessment w.store e agent with
  | error err =>
    rw [hassessed] at hrun
    rw [ensures_bind_error hrun]
    exact ⟨hclaimed, hstored, by simp, by simp⟩
  | ok p =>
    rw [hassessed] at hrun
    rw [ensures_bind_ok hrun]
    have hconcluded : Concluded cp o { w with store := s } p _ _ :=
      ensures_conclude keys replica
    refine ⟨?_, ?_, ?_, hconcluded.recorded⟩
    · rw [hconcluded.store]
      exact hclaimed
    · rw [hconcluded.store]
      exact hstored
    · rw [hconcluded.returns]
      simp only [Except.ok.injEq, exists_eq_left']
      rfl

/-- A proposal of a registered agent is all or nothing exactly if it is turned away before
it claims its nonce, or nothing raises after that. -/
theorem proposal_is_all_or_nothing_iff [LawfulStore S] [LawfulAuditLog L] [LawfulRecorder L]
    (hknown : getAgent e.agentId w.store = some agent) :
    (cp.proposeEvent e).Ensures (worldHandler o keys replica) w (AllOrNothing w) ↔
      ¬ cp.Authentic agent e ∨ (view w.store).nonces e.agentId e.nonce = true ∨
        cp.Completes o w agent e := by
  unfold proposeEvent
  rcases run_authenticate cp o keys replica hknown with
    ⟨hauthentic, hrun⟩ | ⟨hnot, err, hrun⟩
  · rw [ensures_bind_ok hrun]
    cases hclaimed : (view w.store).nonces e.agentId e.nonce with
    | true =>
      obtain ⟨err, w', hassess, hunchanged⟩ := run_assess_claimed cp o keys replica agent
        hclaimed
      refine iff_of_true ?_ (Or.inr (Or.inl rfl))
      rw [ensures_bind_error hassess]
      exact ⟨fun _ _ => hunchanged, fun _ h => nomatch h⟩
    | false =>
      obtain ⟨hafter, _, hreturns, hrecorded⟩ := run_assess_conclude cp o keys replica
        agent hclaimed
      have hrest : ¬ cp.Authentic agent e ∨ false = true ∨ cp.Completes o w agent e ↔
          cp.Completes o w agent e := by
        simp [hauthentic]
      rw [hrest, ← hreturns]
      constructor
      · intro h
        cases hresult : ((cp.assess e agent >>= cp.conclude).run (worldHandler o keys replica)
            w).1 with
        | ok p => exact ⟨p, rfl⟩
        | error err =>
          -- the nonce has been claimed, and the error does not give it back
          have hnonces := (h.raised err hresult).nonces
          rw [hnonces, hclaimed] at hafter
          cases hafter
      · rintro ⟨p, hp⟩
        refine ⟨fun err herr => ?_, hrecorded⟩
        rw [hp] at herr
        cases herr
  · refine iff_of_true ?_ (Or.inl hnot)
    rw [ensures_bind_error hrun]
    exact ⟨fun _ _ => ⟨rfl, rfl, rfl, rfl⟩, fun _ h => nomatch h⟩

variable (replica) in
/-- An authentic proposal that completes under a free nonce is accepted. -/
theorem accepted_of_completes [LawfulStore S] [LawfulAuditLog L] [LawfulRecorder L]
    [Arithmetic F] (hknown : getAgent e.agentId w.store = some agent)
    (hauthentic : cp.Authentic agent e) (hfree : (view w.store).nonces e.agentId e.nonce = false)
    (hcompletes : cp.Completes o w agent e) :
    ∃ p, Accepted ((cp.system o).serve w (replica, .proposeEvent e)) e p := by
  have hauthenticated :
      (cp.authenticate e).run (worldHandler o cp.ledgerKeys replica) w = (.ok agent, w) := by
    rcases run_authenticate cp o cp.ledgerKeys replica hknown with ⟨_, hrun⟩ | ⟨hnot, _⟩
    · exact hrun
    · exact absurd hauthentic hnot
  obtain ⟨_, _, hreturns, _⟩ := run_assess_conclude cp o cp.ledgerKeys replica agent hfree
  obtain ⟨p, hp⟩ := hreturns.mpr hcompletes
  have hproposed :
      ((cp.proposeEvent e).run (worldHandler o cp.ledgerKeys replica) w).1 = .ok p := by
    unfold proposeEvent
    rw [run_bind, hauthenticated]
    exact hp
  refine ⟨p, rfl, ?_⟩
  show ((cp.proposeEvent e >>= fun p => (.done (.packet p) : CpProg (Answer F))).run
    (worldHandler o cp.ledgerKeys replica) w).1 = _
  rw [run_bind]
  cases hrun : (cp.proposeEvent e).run (worldHandler o cp.ledgerKeys replica) w with
  | mk result w' =>
    rw [hrun] at hproposed
    cases hproposed
    rfl

end

/-! ## A rule that cannot be compared -/

/-- A rule for amounts from ten on. -/
def amountRule : DelegationRule :=
  { demoRule .modifyInternalRecord .executeWithSampling with
    conditions := [(.utf8 "amount", .dict [("min", .int 10)])] }

/-- A proposal whose amount is a text. -/
def wordedEvent : WorkflowEvent :=
  { demoEvent true with metadata := [(.utf8 "amount", .str (.utf8 "twenty"))] }

/-- The comparison raises once the nonce is claimed and the event stored. -/
theorem failed_proposal_leaves_traces :
    let w : SqlWorld := demoSystem.final (World.initial _ _ _) [(0, .registerAgent demoAgent),
      (0, .approveDelegationRule amountRule "approver" none)]
    getAgent wordedEvent.agentId w.store = some demoAgent ∧
      ¬ (demoPlane.proposeEvent wordedEvent).Ensures
        (worldHandler (demoOracle fun _ => demoHour 12) demoPlane.ledgerKeys 0) w
        (AllOrNothing w) := by
  intro w
  have hknown : getAgent wordedEvent.agentId w.store = some demoAgent := rfl
  have hfree : (view w.store).nonces wordedEvent.agentId wordedEvent.nonce = false := by
    decide +kernel
  have hsigned :
      ControlPlane.signedBy (P := Primitives.named) demoAgent wordedEvent = .ok true := by
    decide +kernel
  have hraises : (matchingRule wordedEvent w.store).isOk = false := by decide +kernel
  refine ⟨hknown, fun h => ?_⟩
  rcases (proposal_is_all_or_nothing_iff hknown).mp h with hnot | hclaimed | hcompletes
  · exact hnot ⟨rfl, fun _ => ⟨rfl, hsigned⟩⟩
  · rw [hfree] at hclaimed
    cases hclaimed
  · obtain ⟨_, _, _, _, rule?, _, _, _, hrule, _⟩ := hcompletes
    rw [hrule] at hraises
    cases hraises

/-- Without the rule nothing is compared, and the proposal is recorded. -/
theorem completed_proposal_is_recorded :
    let w : SqlWorld := demoSystem.final (World.initial _ _ _) [(0, .registerAgent demoAgent)]
    (demoPlane.proposeEvent wordedEvent).Ensures
      (worldHandler (demoOracle fun _ => demoHour 12) demoPlane.ledgerKeys 0) w
      (AllOrNothing w) := by
  intro w
  have hcompletes :
      demoPlane.Completes (demoOracle fun _ => demoHour 12) w demoAgent wordedEvent := by
    refine completes_of_heldBack ?_
    decide +kernel
  have hknown : getAgent wordedEvent.agentId w.store = some demoAgent := rfl
  exact (proposal_is_all_or_nothing_iff hknown).mpr (Or.inr (Or.inr hcompletes))

end EarnedAutonomy
