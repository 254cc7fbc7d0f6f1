import EarnedAutonomy.Core.ControlPlane
import EarnedAutonomy.Lib.History

/-!
# The calls of each operation

Two kinds of facts about the programs of the control plane, on which all
results about runs are built.

* `uses_*`: the calls an operation can make at all, on any way through it,
  including the ways that end in an exception.
* `follows_*`: the calls of an operation that has returned, in order, with what
  it computed from their answers.
-/

namespace EarnedAutonomy

open Atomic Prog Calendar

/-- Calls of the capability service as calls of the control plane. -/
def capCalls (cs : List ((c : CapCall) × CapRes c)) : List ((c : Call) × Res c) :=
  cs.map fun c => ⟨.cap c.1, c.2⟩

theorem follows_liftCap {α : Type} {p : CapProg α} {calls : List ((c : Call) × Res c)}
    {q : CpProg α} (h : Follows (liftCap p) calls q) :
    ∃ cs p', calls = capCalls cs ∧ Follows p cs p' ∧ q = liftCap p' := by
  obtain ⟨cs, p', hcalls, hp, hq⟩ := h.of_embed
  have hcs : (cs.map fun c => (⟨c.1, c.2⟩ : (c : CapCall) × CapRes c)) = cs := List.map_id cs
  exact ⟨cs, p', hcalls, hcs ▸ hp, hq⟩

theorem follows_liftCap_done {α : Type} {p : CapProg α} {calls : List ((c : Call) × Res c)}
    {a : α} (h : Follows (liftCap p) calls (.done a)) :
    ∃ cs, calls = capCalls cs ∧ Follows p cs (.done a) := by
  obtain ⟨cs, p', hcalls, hp, hq⟩ := follows_liftCap h
  cases p' with
  | done b =>
    cases hq
    exact ⟨cs, hcalls, hp⟩
  | raise e => cases hq
  | call c next => cases hq

theorem uses_liftCap {α : Type} {A : Call → Prop} {p : CapProg α}
    (hp : p.Uses fun c => A (.cap c)) : (liftCap p).Uses A :=
  uses_embed (fun op (h : A (.cap op)) => h) hp

/-- Reads, counters and the ledger: the calls that leave agents, events, rules,
nonces, decisions, capability state and the actions as they are. -/
def Call.plain : Call → Bool
  | .getAgent _ | .getEvent _ | .getRule _ | .matchingRule _ | .rulesFor _ _ _ => true
  | .cap .utcNow | .cap .uuid4 | .cap (.isRevoked _) => true
  | .getStats _ _ _ | .recordDecision _ | .countIncident | .countRecommendation => true
  | .append _ _ _ => true
  | _ => false

/-- The record of a decision or of an incident. -/
def Call.recordsTrust : Call → Bool
  | .append eventType _ _ => eventType = "approval.decision" || eventType = "incident.recorded"
  | _ => false

/-- The type of the record that a command which counts for trust is kept under. -/
def Command.trustRecord : Command → Option String
  | .submitDecision _ => some "approval.decision"
  | .recordIncident _ _ _ _ _ => some "incident.recorded"
  | _ => none

theorem uses_ledgerAppend {A : Call → Prop} {eventType : String} {payload : PyVal}
    {actorId : Option String} (happend : A (.append eventType payload actorId)) :
    (ledgerAppend eventType payload actorId).Uses A :=
  uses_bind ⟨happend, fun _ => trivial⟩ fun _ => uses_ofExcept _

section

variable {A : Call → Prop} (hplain : ∀ c, c.plain = true → c.recordsTrust = false → A c)

include hplain

theorem uses_verify {P : Primitives} {svc : CapabilityService P} {t : CapabilityToken}
    {action : CapabilityService.Action} (hconsume : A (.cap (.tryConsume t.tokenId))) :
    (liftCap (svc.verifyForAction t action)).Uses A :=
  uses_liftCap
    (CapabilityService.uses_verifyForAction (hplain _ rfl rfl) (hplain _ rfl rfl) hconsume)

theorem uses_execute {P : Primitives} {svc : CapabilityService P}
    {token : Option CapabilityToken} {action : CapabilityService.Action}
    {outcome : Except String PyVal}
    (hconsume : ∀ t, token = some t → A (.cap (.tryConsume t.tokenId)))
    (hinvoke : ∀ i, A (.invoke i)) : (svc.execute token action outcome).Uses A := by
  cases token with
  | none => trivial
  | some t =>
    refine uses_bind (uses_verify hplain (hconsume t rfl)) fun result => ?_
    cases result.ok with
    | false => trivial
    | true => exact ⟨hinvoke _, fun _ => by cases outcome <;> trivial⟩

end

theorem follows_ledgerAppend_done {eventType : String} {payload : PyVal}
    {actorId : Option String} {calls : List ((c : Call) × Res c)} {r : AuditRecord}
    (h : Follows (ledgerAppend eventType payload actorId) calls (.done r)) :
    calls = [⟨.append eventType payload actorId, .ok r⟩] := by
  simp only [ledgerAppend, perform_bind, follows_call_done_iff, follows_ofExcept_done_iff] at h
  obtain ⟨_, _, rfl, rfl, rfl⟩ := h
  rfl

/-- The action runs last, after a verification that accepted the token. -/
theorem follows_execute_invoke {P : Primitives} {svc : CapabilityService P}
    {token : Option CapabilityToken} {action : CapabilityService.Action}
    {outcome : Except String PyVal} {calls : List ((c : Call) × Res c)}
    {q : CpProg ExecutionResult} (h : Follows (svc.execute token action outcome) calls q)
    {i : Invocation} (hi : ⟨.invoke i, ()⟩ ∈ calls) :
    ∃ t cs r, token = some t ∧
      i = ⟨t, action.agentId, action.workflowId, action.authorityClass⟩ ∧
      Follows (svc.verifyForAction t action) cs (.done r) ∧ r.ok = true ∧
      calls = capCalls cs ++ [⟨.invoke i, ()⟩] := by
  have notCap : ∀ cs, ⟨.invoke i, ()⟩ ∉ capCalls cs := by simp [capCalls]
  cases token with
  | none =>
    obtain ⟨rfl, _⟩ := follows_done_iff.mp h
    cases hi
  | some t =>
    rcases follows_bind_iff.mp h with ⟨p', hp', _⟩ | ⟨r, front, back, rfl, hfront, hback⟩
    · obtain ⟨cs, _, rfl, _⟩ := follows_liftCap hp'
      exact absurd hi (notCap cs)
    · obtain ⟨cs, rfl, hcs⟩ := follows_liftCap_done hfront
      have hi := (List.mem_append.mp hi).resolve_left (notCap cs)
      cases hok : r.ok with
      | false =>
        simp only [hok, Bool.not_false, if_true, pure_eq_done, follows_done_iff] at hback
        simp [hback.1] at hi
      | true =>
        simp only [hok, Bool.not_true, Bool.false_eq_true, if_false, perform_bind,
          follows_call_iff] at hback
        rcases hback with ⟨rfl, _⟩ | ⟨_, rest, rfl, hrest⟩
        · cases hi
        · have hnil : rest = [] := by
            cases outcome with
            | ok output => exact (follows_done_iff.mp hrest).1
            | error message => exact (follows_raise_iff.mp hrest).1
          subst hnil
          obtain rfl : i = ⟨t, action.agentId, action.workflowId, action.authorityClass⟩ := by
            simpa using hi
          exact ⟨t, cs, r, rfl, rfl, hcs, hok, rfl⟩

namespace ControlPlane

variable {P : Primitives} {F : Type} {cp : ControlPlane P F}

/-! ## What each operation can call -/

section

variable {A : Call → Prop} (hplain : ∀ c, c.plain = true → c.recordsTrust = false → A c)

include hplain

theorem uses_registerAgent {agent : AgentIdentity} (hadd : A (.addAgent agent)) :
    (cp.registerAgent agent).Uses A := by
  unfold registerAgent
  split
  · trivial
  · refine uses_call_bind hadd fun _ => ?_
    exact uses_bind (uses_ledgerAppend (hplain _ rfl rfl)) fun _ => trivial

theorem uses_authenticate {e : WorkflowEvent}
    (hadd : cp.config.strictMode = false → ∀ now, A (.addAgent (autoRegistered e now))) :
    (cp.authenticate e).Uses A := by
  refine uses_bind (uses_call_bind (hplain _ rfl rfl) fun found => ?_) fun agent => ?_
  · cases found with
    | some agent => trivial
    | none =>
      dsimp only
      split
      · trivial
      · rename_i hstrict
        refine uses_call_bind (hplain _ rfl rfl) fun now => ?_
        exact uses_call_bind (hadd (by simpa using hstrict) _) fun _ => trivial
  · split
    · trivial
    · split
      · split
        · trivial
        · exact uses_bind (uses_ofExcept _) fun signed => by cases signed <;> trivial
      · trivial

theorem uses_mintFor {e : WorkflowEvent} {rule? : Option DelegationRule}
    {status : AutonomyStatus} (hrecord : ∀ t entry, A (.cap (.recordIssued t entry))) :
    (cp.mintFor e rule? status).Uses A := by
  unfold mintFor
  split
  · refine uses_bind (uses_liftCap ?_) fun _ => trivial
    exact CapabilityService.uses_mint (hplain _ rfl rfl) (hplain _ rfl rfl) hrecord _
  · trivial

theorem uses_assess {e : WorkflowEvent} {agent : AgentIdentity}
    (hnonce : A (.claimNonce e.agentId e.nonce)) (hevent : A (.addEvent e))
    (htouch : A (.touchEvent (withApprovedWorkflows e agent))) : (cp.assess e agent).Uses A := by
  refine uses_call_bind hnonce fun claimed => ?_
  cases claimed with
  | false => trivial
  | true =>
    refine uses_call_bind hevent fun _ => ?_
    refine uses_bind (uses_ofExcept _) fun classified => ?_
    refine uses_bind (uses_ofExcept _) fun current => ?_
    refine uses_call_bind (hplain _ rfl rfl) fun found => ?_
    refine uses_bind (uses_ofExcept _) fun rule? => ?_
    refine uses_call_bind htouch fun _ => ?_
    exact uses_bind (uses_ofExcept _) fun decision => trivial

/-- What follows the mint. -/
theorem uses_recordAnswer (p : Packet) (token : Option CapabilityToken) :
    (do
      call (.recordDecision p.decision.status.value)
      let _ ← ledgerAppend "workflow.event.proposed" p.ledgerDict (some p.event.agentId)
      return { p with token := token } : CpProg Packet).Uses A :=
  uses_call_bind (hplain _ rfl rfl) fun _ =>
    uses_bind (uses_ledgerAppend (hplain _ rfl rfl)) fun _ => trivial

theorem uses_conclude {p : Packet} (hrecord : ∀ t entry, A (.cap (.recordIssued t entry))) :
    (cp.conclude p).Uses A :=
  uses_bind (uses_mintFor hplain hrecord) fun token => uses_recordAnswer hplain p token

theorem uses_proposeEvent {e : WorkflowEvent}
    (hadd : cp.config.strictMode = false → ∀ now, A (.addAgent (autoRegistered e now)))
    (hnonce : A (.claimNonce e.agentId e.nonce)) (hevent : A (.addEvent e))
    (htouch : ∀ agent, A (.touchEvent (withApprovedWorkflows e agent)))
    (hrecord : ∀ t entry, A (.cap (.recordIssued t entry))) :
    (cp.proposeEvent e).Uses A :=
  uses_bind (uses_authenticate hplain hadd) fun agent =>
    uses_bind (uses_assess hplain hnonce hevent (htouch agent)) fun _ =>
      uses_conclude hplain hrecord

theorem uses_finalize (stats : TrustStats) (advice : Advice F) :
    (finalize stats advice).Uses A := by
  unfold finalize
  dsimp only
  split
  · refine uses_call_bind (hplain _ rfl rfl) fun _ => uses_call_bind (hplain _ rfl rfl) fun _ => ?_
    exact uses_call_bind (hplain _ rfl rfl) fun _ =>
      uses_call_bind (hplain _ rfl rfl) fun _ => trivial
  · exact uses_call_bind (hplain _ rfl rfl) fun _ =>
      uses_call_bind (hplain _ rfl rfl) fun _ => trivial

theorem uses_recommendFor [Arithmetic F] (a w : String) (c : AuthorityClass) :
    (recommendFor F a w c).Uses A := by
  refine uses_call_bind (hplain _ rfl rfl) fun found => ?_
  cases found with
  | none => trivial
  | some agent =>
    refine uses_call_bind (hplain _ rfl rfl) fun stats => ?_
    refine uses_bind (uses_ofExcept _) fun current => ?_
    refine uses_bind (uses_finalize hplain _ _) fun _ => ?_
    refine uses_call_bind (hplain _ rfl rfl) fun _ => ?_
    exact uses_bind (uses_ledgerAppend (hplain _ rfl rfl)) fun _ => trivial

theorem uses_checkApprover (e : WorkflowEvent) (d : ApprovalDecision) :
    (checkApprover e d).Uses A := by
  unfold checkApprover
  split
  · refine uses_call_bind (hplain _ rfl rfl) fun found => ?_
    cases found with
    | none => trivial
    | some agent =>
      dsimp only
      split <;> trivial
  · trivial

theorem uses_submitDecision [Arithmetic F] {d : ApprovalDecision}
    (happly : ∀ a w c, A (.applyDecision a w c d))
    (happend : ∀ payload actor, A (.append "approval.decision" payload actor)) :
    (submitDecision F d).Uses A := by
  refine uses_call_bind (hplain _ rfl rfl) fun found => ?_
  cases found with
  | none => trivial
  | some event =>
    refine uses_bind (uses_checkApprover hplain _ _) fun _ => ?_
    refine uses_call_bind (happly _ _ _) fun counted => ?_
    refine uses_bind (uses_ofExcept _) fun stats => ?_
    refine uses_bind (uses_ledgerAppend (happend _ _)) fun _ => ?_
    refine uses_bind (uses_recommendFor hplain _ _ _) fun _ => ?_
    exact uses_bind (uses_ledgerAppend (hplain _ rfl rfl)) fun _ => trivial

theorem uses_approveDelegationRule {rule : DelegationRule} {approverId : String}
    {role : Option PyStr} (hrule : A (.addRule { rule with createdBy := some approverId })) :
    (approveDelegationRule rule approverId role).Uses A := by
  refine uses_call_bind (hplain _ rfl rfl) fun agent? => ?_
  dsimp only
  split
  · trivial
  · split
    · trivial
    · refine uses_call_bind hrule fun _ => ?_
      exact uses_bind (uses_ledgerAppend (hplain _ rfl rfl)) fun _ => trivial

omit hplain in
theorem uses_revokeScope {a w : String} {c : AuthorityClass}
    (hscope : A (.cap (.revokeScope a w c.value))) :
    (liftCap (CapabilityService.revokeScope a w c)).Uses A :=
  uses_liftCap ((uses_perform _).mpr hscope)

theorem uses_revokeDelegationRule {ruleId actorId : String} {reason : PyStr}
    (hrule : ∀ r, A (.addRule (deactivated r reason)))
    (hscope : ∀ a w c, A (.cap (.revokeScope a w c))) :
    (revokeDelegationRule ruleId actorId reason).Uses A := by
  refine uses_call_bind (hplain _ rfl rfl) fun found => ?_
  cases found with
  | none => trivial
  | some rule =>
    refine uses_call_bind (hrule rule) fun _ => ?_
    refine uses_bind (uses_revokeScope (hscope _ _ _)) fun _ => ?_
    exact uses_bind (uses_ledgerAppend (hplain _ rfl rfl)) fun _ => trivial

omit hplain in
theorem uses_deactivateRules {reason : PyStr}
    (hrule : ∀ r : DelegationRule, ∀ why, A (.addRule (deactivated r why)))
    (rules : List DelegationRule) : (deactivateRules reason rules).Uses A := by
  induction rules with
  | nil => trivial
  | cons r rest ih =>
    unfold deactivateRules
    split
    · exact uses_call_bind (hrule r _) fun _ => uses_bind ih fun _ => trivial
    · exact ih

theorem uses_downgrade {a w : String} {c : AuthorityClass} {reason : PyStr}
    (htouch : ∀ g, A (.touchAgent g)) (hadd : ∀ g, A (.addAgent g))
    (hrule : ∀ r : DelegationRule, ∀ why, A (.addRule (deactivated r why))) :
    (downgrade a w c reason).Uses A := by
  refine uses_call_bind (hplain _ rfl rfl) fun found => ?_
  cases found with
  | none => trivial
  | some agent =>
    refine uses_call_bind (htouch _) fun _ => ?_
    refine uses_bind (uses_ofExcept _) fun current => ?_
    refine uses_call_bind (hadd _) fun _ => ?_
    exact uses_call_bind (hplain _ rfl rfl) fun rules => uses_deactivateRules hrule rules

theorem uses_recordIncident [Arithmetic F] {a w : String} {c : AuthorityClass} {reason : PyStr}
    {actorId : String} (hnote : A (.noteIncident a w c)) (htouch : ∀ g, A (.touchAgent g))
    (hadd : ∀ g, A (.addAgent g))
    (hrule : ∀ r : DelegationRule, ∀ why, A (.addRule (deactivated r why)))
    (hscope : A (.cap (.revokeScope a w c.value)))
    (happend : ∀ payload actor, A (.append "incident.recorded" payload actor)) :
    (recordIncident F a w c reason actorId).Uses A := by
  refine uses_call_bind hnote fun stats => ?_
  refine uses_call_bind (hplain _ rfl rfl) fun _ => ?_
  refine uses_bind (uses_downgrade hplain htouch hadd hrule) fun rules => ?_
  refine uses_bind (uses_revokeScope hscope) fun _ => ?_
  exact uses_bind (uses_ledgerAppend (happend _ _)) fun _ => trivial

end

/-- The calls that only this command makes, beside the plain ones. -/
def ownCall (cp : ControlPlane P F) : Command → Call → Prop
  | .registerAgent agent, c => c = .addAgent agent
  | .proposeEvent e, c =>
      (cp.config.strictMode = false ∧ ∃ now, c = .addAgent (autoRegistered e now)) ∨
        c = .claimNonce e.agentId e.nonce ∨ c = .addEvent e ∨
        (∃ agent, c = .touchEvent (withApprovedWorkflows e agent)) ∨
        ∃ t entry, c = .cap (.recordIssued t entry)
  | .submitDecision d, c => ∃ a w k, c = .applyDecision a w k d
  | .approveDelegationRule rule approverId _, c =>
      c = .addRule { rule with createdBy := some approverId }
  | .revokeDelegationRule _ _ reason, c =>
      (∃ r, c = .addRule (deactivated r reason)) ∨ ∃ a w k, c = .cap (.revokeScope a w k)
  | .recordIncident a w k _ _, c =>
      c = .noteIncident a w k ∨ (∃ g, c = .touchAgent g) ∨ (∃ g, c = .addAgent g) ∨
        (∃ r why, c = .addRule (deactivated r why)) ∨ c = .cap (.revokeScope a w k.value)
  | .recommendFor _ _ _, _ => False
  | .execute token _ _, c =>
      (∃ t, token = some t ∧ c = .cap (.tryConsume t.tokenId)) ∨ ∃ i, c = .invoke i
  | .verifyForAction t _, c => c = .cap (.tryConsume t.tokenId)
  | .revokeToken tokenId, c => c = .cap (.revoke tokenId)
  | .purgeExpired, c => ∃ now, c = .cap (.purgeExpired now)

/-- A command makes plain calls and its own, and keeps one kind of record at most. -/
theorem uses_body [Arithmetic F] {A : Call → Prop}
    (hplain : ∀ c, c.plain = true → c.recordsTrust = false → A c) {cmd : Command}
    (hown : ∀ c, cp.ownCall cmd c → A c)
    (hrecord : ∀ t ∈ cmd.trustRecord, ∀ payload actor, A (.append t payload actor)) :
    (cp.body cmd).Uses A := by
  have value {α : Type} {p : CpProg α} {f : α → Answer F} (hp : p.Uses A) :
      (p >>= fun a => .done (f a)).Uses A := uses_bind hp fun _ => trivial
  cases cmd with
  | registerAgent agent => exact value (uses_registerAgent hplain (hown _ rfl))
  | proposeEvent e =>
    refine value (uses_proposeEvent hplain ?_ ?_ ?_ ?_ ?_)
    · exact fun hstrict now => hown _ (Or.inl ⟨hstrict, now, rfl⟩)
    · exact hown _ (Or.inr (Or.inl rfl))
    · exact hown _ (Or.inr (Or.inr (Or.inl rfl)))
    · exact fun agent => hown _ (Or.inr (Or.inr (Or.inr (Or.inl ⟨agent, rfl⟩))))
    · exact fun t entry => hown _ (Or.inr (Or.inr (Or.inr (Or.inr ⟨t, entry, rfl⟩))))
  | submitDecision d =>
    exact value (uses_submitDecision hplain (fun a w k => hown _ ⟨a, w, k, rfl⟩) (hrecord _ rfl))
  | approveDelegationRule rule approverId role =>
    exact value (uses_approveDelegationRule hplain (hown _ rfl))
  | revokeDelegationRule ruleId actorId reason =>
    exact value (uses_revokeDelegationRule hplain (fun r => hown _ (Or.inl ⟨r, rfl⟩))
      fun a w k => hown _ (Or.inr ⟨a, w, k, rfl⟩))
  | recordIncident a w k reason actorId =>
    refine value (uses_recordIncident hplain (hown _ (Or.inl rfl)) ?_ ?_ ?_ ?_ (hrecord _ rfl))
    · exact fun g => hown _ (Or.inr (Or.inl ⟨g, rfl⟩))
    · exact fun g => hown _ (Or.inr (Or.inr (Or.inl ⟨g, rfl⟩)))
    · exact fun r why => hown _ (Or.inr (Or.inr (Or.inr (Or.inl ⟨r, why, rfl⟩))))
    · exact hown _ (Or.inr (Or.inr (Or.inr (Or.inr rfl))))
  | recommendFor a w k => exact value (uses_recommendFor hplain a w k)
  | execute token action outcome =>
    exact value (uses_execute hplain (fun t ht => hown _ (Or.inl ⟨t, ht, rfl⟩))
      fun i => hown _ (Or.inr ⟨i, rfl⟩))
  | verifyForAction t action => exact value (uses_verify hplain (hown _ rfl))
  | revokeToken tokenId =>
    exact value (uses_liftCap ((uses_perform _).mpr (hown _ rfl)))
  | purgeExpired =>
    exact value (uses_liftCap (CapabilityService.uses_purgeExpired (A := fun c => A (.cap c))
      (hplain _ rfl rfl) (fun now => hown _ ⟨now, rfl⟩) none))

/-- A call of a command is plain or its own. -/
theorem follows_body_call [Arithmetic F] {cmd : Command} {calls : List ((c : Call) × Res c)}
    {q : CpProg (Answer F)} (h : Follows (cp.body cmd) calls q) {c : Call} {a : Res c}
    (hc : ⟨c, a⟩ ∈ calls) : c.plain = true ∨ cp.ownCall cmd c :=
  h.uses_calls (A := fun c => c.plain = true ∨ cp.ownCall cmd c)
    (uses_body (fun _ h _ => Or.inl h) (fun _ => Or.inr) fun _ _ _ _ => Or.inl rfl) _ hc

/-- Only the enforcement point runs an action. -/
theorem follows_body_invoke [Arithmetic F] {cmd : Command} {calls : List ((c : Call) × Res c)}
    {q : CpProg (Answer F)} (h : Follows (cp.body cmd) calls q) {i : Invocation}
    (hi : ⟨.invoke i, ()⟩ ∈ calls) :
    ∃ t action outcome cs r, cmd = .execute (some t) action outcome ∧
      i = ⟨t, action.agentId, action.workflowId, action.authorityClass⟩ ∧
      Follows (cp.capabilityService.verifyForAction t action) cs (.done r) ∧ r.ok = true ∧
      calls = capCalls cs ++ [⟨.invoke i, ()⟩] := by
  rcases follows_body_call h hi with hplain | hown
  · cases hplain
  · cases cmd <;> simp [ownCall] at hown
    obtain ⟨q', hq', _⟩ := Follows.of_map h
    obtain ⟨t, cs, r, rfl, hi, hcs, hok, hcalls⟩ := follows_execute_invoke hq' hi
    exact ⟨t, _, _, cs, r, rfl, hi, hcs, hok, hcalls⟩

/-! ## Proposals -/

/-- Who was authenticated is active and, in strict mode, signed the event. -/
theorem follows_authenticate_done {e : WorkflowEvent} {calls : List ((c : Call) × Res c)}
    {agent : AgentIdentity} (h : Follows (cp.authenticate e) calls (.done agent)) :
    agent.active = true ∧
      (cp.config.strictMode = true → signedBy (P := P) agent e = .ok true) ∧
      (calls = [⟨.getAgent e.agentId, some agent⟩] ∨ cp.config.strictMode = false ∧
        ∃ now, agent = autoRegistered e (isoformat now) ∧
          calls = [⟨.getAgent e.agentId, none⟩, ⟨.cap .utcNow, now⟩, ⟨.addAgent agent, ()⟩]) := by
  rw [authenticate, follows_bind_done_iff] at h
  obtain ⟨agent', front, back, rfl, hproposer, h⟩ := h
  -- what follows the lookup makes no call
  have hrest : agent'.active = true ∧ agent = agent' ∧ back = [] ∧
      (cp.config.strictMode = true → signedBy (P := P) agent' e = .ok true) := by
    cases hactive : agent'.active with
    | false => simp [hactive] at h
    | true =>
      cases hstrict : cp.config.strictMode with
      | false => simpa [hactive, hstrict, eq_comm, and_comm] using h
      | true =>
        cases hsig : present e.signature with
        | false => simp [hactive, hstrict, hsig] at h
        | true =>
          simp only [hactive, hstrict, hsig, Bool.not_true, Bool.false_eq_true, if_false,
            if_true, follows_ofExcept_bind_done_iff] at h
          obtain ⟨signed, hsigned, h⟩ := h
          cases signed with
          | false => simp at h
          | true =>
            simp only [if_true, pure_eq_done, follows_done_iff, Prog.done.injEq] at h
            exact ⟨rfl, h.2, h.1, fun _ => hsigned⟩
  obtain ⟨hactive, rfl, rfl, hsigned⟩ := hrest
  refine ⟨hactive, hsigned, ?_⟩
  rw [List.append_nil]
  simp only [proposer, perform_bind, follows_call_done_iff] at hproposer
  obtain ⟨found, rest, rfl, h⟩ := hproposer
  cases found with
  | some agent' =>
    simp only [pure_eq_done, follows_done_iff, Prog.done.injEq] at h
    obtain ⟨rfl, rfl⟩ := h
    exact Or.inl rfl
  | none =>
    cases hstrict : cp.config.strictMode with
    | true => simp [hstrict] at h
    | false =>
      simp only [hstrict, Bool.false_eq_true, if_false, follows_call_done_iff, pure_eq_done,
        follows_done_iff, Prog.done.injEq] at h
      obtain ⟨now, _, rfl, _, _, rfl, rfl, rfl⟩ := h
      exact Or.inr ⟨rfl, now, rfl, rfl⟩

/-- The calls between authentication and policy. -/
def readingCalls (e : WorkflowEvent) (p : Packet) : List ((c : Call) × Res c) :=
  [⟨.claimNonce e.agentId e.nonce, true⟩, ⟨.addEvent e, ()⟩,
    ⟨.matchingRule e, .ok p.matchingRule⟩, ⟨.touchEvent p.event, ()⟩]

/-- The calls that record the answer. -/
def recordingCalls (p : Packet) (r : AuditRecord) : List ((c : Call) × Res c) :=
  [⟨.recordDecision p.decision.status.value, ()⟩,
    ⟨.append "workflow.event.proposed" p.ledgerDict (some p.event.agentId), .ok r⟩]

/-- What a packet was computed from. -/
structure Assessed (cp : ControlPlane P F) (e : WorkflowEvent) (p : Packet) : Prop where
  event : p.event = withApprovedWorkflows e p.agent
  level : p.agent.autonomyFor e.workflowId e.authorityRequested = .ok p.currentLevel
  decision : ∃ consequences risk, cp.policyEngine.evaluate p.event p.currentLevel consequences
    risk p.matchingRule = .ok p.decision

/-- A packet has a token exactly if its status lets the action proceed. -/
def Granted (cp : ControlPlane P F) (p : Packet) (minted : List ((c : CapCall) × CapRes c)) :
    Prop :=
  p.decision.status.permissive = false ∧ p.token = none ∧ minted = [] ∨
    p.decision.status.permissive = true ∧ ∃ t, p.token = some t ∧
      Follows (cp.capabilityService.mint (cp.grantFor p.event p.matchingRule p.decision.status))
        minted (.done t)

/-- An assessment that was answered made these calls. -/
theorem follows_assess_done {e : WorkflowEvent} {agent : AgentIdentity}
    {calls : List ((c : Call) × Res c)} {p : Packet}
    (h : Follows (cp.assess e agent) calls (.done p)) :
    calls = readingCalls e p ∧ Assessed cp e p ∧ p.agent = agent ∧ p.token = none := by
  simp only [assess, perform_bind, follows_call_done_iff] at h
  obtain ⟨claimed, rest, rfl, h⟩ := h
  cases claimed with
  | false => simp at h
  | true =>
    simp only [Bool.not_true, Bool.false_eq_true, if_false, follows_call_done_iff,
      follows_ofExcept_bind_done_iff, Prod.exists] at h
    obtain ⟨_, rest, rfl, consequences, risk, reasons, _, current, hlevel, found, rest, rfl,
      rule?, rfl, _, rest, rfl, decision, hdecision, h⟩ := h
    simp only [pure_eq_done, follows_done_iff, Prog.done.injEq] at h
    obtain ⟨rfl, rfl⟩ := h
    exact ⟨rfl, ⟨rfl, hlevel, _, _, hdecision⟩, rfl, rfl⟩

/-- A token was minted for the packet where its status lets the action proceed,
and otherwise no call was made for one. -/
theorem follows_mintFor_done {p : Packet} {calls : List ((c : Call) × Res c)}
    {token : Option CapabilityToken}
    (h : Follows (cp.mintFor p.event p.matchingRule p.decision.status) calls (.done token)) :
    ∃ minted, calls = capCalls minted ∧ Granted cp { p with token := token } minted := by
  unfold mintFor at h
  cases hperm : p.decision.status.permissive with
  | false =>
    simp only [hperm, Bool.false_eq_true, if_false, pure_eq_done, follows_done_iff,
      Prog.done.injEq] at h
    obtain ⟨rfl, rfl⟩ := h
    exact ⟨[], rfl, Or.inl ⟨hperm, rfl, rfl⟩⟩
  | true =>
    simp only [hperm, if_true] at h
    obtain ⟨t, hmint, rfl⟩ := h.of_map_done
    obtain ⟨cs, rfl, hcs⟩ := follows_liftCap_done hmint
    exact ⟨cs, rfl, Or.inr ⟨hperm, t, rfl, hcs⟩⟩

/-- A proposal that was answered made these calls. -/
theorem follows_proposeEvent_done {e : WorkflowEvent} {calls : List ((c : Call) × Res c)}
    {p : Packet} (h : Follows (cp.proposeEvent e) calls (.done p)) :
    ∃ front minted r, Follows (cp.authenticate e) front (.done p.agent) ∧ Assessed cp e p ∧
      Granted cp p minted ∧
      calls = front ++ (readingCalls e p ++ (capCalls minted ++ recordingCalls p r)) := by
  rw [proposeEvent, follows_bind_done_iff] at h
  obtain ⟨agent, front, back, rfl, hauth, h⟩ := h
  rw [follows_bind_done_iff] at h
  obtain ⟨p', reading, back, rfl, hreading, h⟩ := h
  obtain ⟨rfl, hassessed, rfl, htoken⟩ := follows_assess_done hreading
  rw [conclude, follows_bind_done_iff] at h
  obtain ⟨token, mid, back, rfl, hmint, h⟩ := h
  obtain ⟨minted, rfl, hgranted⟩ := follows_mintFor_done hmint
  simp only [perform_bind, follows_call_done_iff] at h
  obtain ⟨_, rest, rfl, h⟩ := h
  rw [follows_bind_done_iff] at h
  obtain ⟨r, last, back, rfl, hlast, h⟩ := h
  simp only [pure_eq_done, follows_done_iff, Prog.done.injEq] at h
  obtain ⟨rfl, rfl⟩ := h
  rw [follows_ledgerAppend_done hlast]
  exact ⟨front, minted, r, hauth, ⟨hassessed.event, hassessed.level, hassessed.decision⟩,
    hgranted, rfl⟩

end ControlPlane

end EarnedAutonomy
