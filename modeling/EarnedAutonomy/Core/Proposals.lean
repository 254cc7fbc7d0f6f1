import EarnedAutonomy.Core.Atomicity

/-!
# What a proposal is answered with

The answer to a proposal from the state that it finds.

* `found` is the agent of a proposal, with the state after a registration on the fly.
* `Assesses` is a proposal that gets an answer from the policy.
* `outcome_iff`: the decision and the grant that come back, and when.
* `issues_iff`: when a capability token is put on record.
-/

namespace EarnedAutonomy

open Atomic Service Prog Calendar Store LawfulStore

/-! ## Outcomes -/

/-- The scope of a token, with its conditions and its rank. -/
structure Grant where
  agentId : String
  workflowId : String
  authorityClass : AuthorityClass
  conditions : Mapping
  maxConsequenceRank : Int

def CapabilityToken.grant (t : CapabilityToken) : Grant where
  agentId := t.agentId
  workflowId := t.workflowId
  authorityClass := t.authorityClass
  conditions := t.conditions
  maxConsequenceRank := t.maxConsequenceRank

/-- What comes back from a proposal: the decision, and what its token grants. -/
structure Outcome where
  decision : PolicyDecision
  grant : Option Grant

/-- The outcome of a proposal, unless it raised. -/
def outcomeOf {F : Type} : Except PyError (Answer F) → Option Outcome
  | .ok (.packet p) => some ⟨p.decision, p.token.map CapabilityToken.grant⟩
  | _ => none

/-- A capability token is put on record. -/
def Call.recordsToken : Call → Prop
  | .cap (.recordIssued _ _) => True
  | _ => False

instance (c : Call) : Decidable c.recordsToken := by
  unfold Call.recordsToken
  split <;> infer_instance

section

variable {P : Primitives} {F : Type} (cp : ControlPlane P F) (o : Oracle)
variable {S C L : Type} [Store S] [CapabilityStateStore C] [AuditLog L]

namespace ControlPlane

/-- What the token for an event grants under a status, if there is one. -/
def grantUnder (event : WorkflowEvent) (rule? : Option DelegationRule) (status : AutonomyStatus) :
    Option Grant :=
  if status.permissive then some {
    agentId := event.agentId
    workflowId := event.workflowId
    authorityClass := event.authorityRequested
    conditions := match rule? with
      | some rule => rule.conditions
      | none => []
    maxConsequenceRank := consequenceRank event.authorityRequested }
  else none

/-- The grant of an assessed event. -/
def Packet.granted (p : Packet) : Option Grant :=
  grantUnder p.event p.matchingRule p.decision.status

/-- The agent of a proposal, and the state in which it is known. -/
def found (w : World S C L) (e : WorkflowEvent) : Option (AgentIdentity × World S C L) :=
  match getAgent e.agentId w.store with
  | some agent => some (agent, w)
  | none =>
      if cp.config.strictMode then none
      else
        let agent := autoRegistered e (isoformat (o.time w.reads))
        some (agent, { w with store := addAgent agent w.store, reads := w.reads + 1 })

end ControlPlane

open ControlPlane

/-- The proposal is authentic, its nonce is free, and the policy answers it. -/
structure Assesses [LawfulStore S] (w : World S C L) (e : WorkflowEvent) (w' : World S C L)
    (p : Packet) : Prop where
  found : cp.found o w e = some (p.agent, w')
  authentic : cp.Authentic p.agent e
  free : (view w.store).nonces e.agentId e.nonce = false
  answered : cp.assessment w'.store e p.agent = .ok p

variable {cp o} {keys : KeyPair P} {replica : Nat} {w : World S C L} {e : WorkflowEvent}

/-! ## Parts of a proposal -/

variable (cp o keys replica w e) in
theorem run_proposer : (cp.proposer e).run (worldHandler o keys replica) w =
    match cp.found o w e with
    | some (agent, w') => (.ok agent, w')
    | none => (.error (.authenticationError ("unknown agent_id: " ++ e.agentId)), w) := by
  unfold proposer found
  simp only [perform_bind, run_call, worldHandler]
  cases getAgent e.agentId w.store with
  | some agent => rfl
  | none =>
    cases cp.config.strictMode with
    | true => rfl
    | false => rfl

/-- Who is authenticated was found, and is authentic. -/
theorem run_authenticate_eq_ok_iff {agent : AgentIdentity} {w' : World S C L} :
    (cp.authenticate e).run (worldHandler o keys replica) w = (.ok agent, w') ↔
      cp.found o w e = some (agent, w') ∧ cp.Authentic agent e := by
  have hproposer := run_proposer cp o keys replica w e
  cases hfound : cp.found o w e with
  | none =>
    rw [hfound] at hproposer
    unfold authenticate
    rw [run_bind, hproposer]
    simp
  | some agent' =>
    obtain ⟨agent', w''⟩ := agent'
    rw [hfound] at hproposer
    rcases run_authenticate_of_proposer cp o keys replica hproposer with
      ⟨hauthentic, hrun⟩ | ⟨hnot, err, hrun⟩
    · rw [hrun, Option.some.injEq, Prod.mk.injEq, Prod.mk.injEq, Except.ok.injEq]
      constructor
      · rintro ⟨rfl, rfl⟩
        exact ⟨⟨rfl, rfl⟩, hauthentic⟩
      · exact fun h => h.1
    · rw [hrun, Option.some.injEq, Prod.mk.injEq, Prod.mk.injEq]
      constructor
      · intro h
        cases h.1
      · rintro ⟨⟨rfl, rfl⟩, h⟩
        exact absurd h hnot

omit [CapabilityStateStore C] [AuditLog L] in
/-- Finding the agent claims no nonce. -/
theorem nonces_of_found [LawfulStore S] {agent : AgentIdentity} {w' : World S C L}
    (h : cp.found o w e = some (agent, w')) :
    (view w'.store).nonces = (view w.store).nonces := by
  unfold found at h
  split at h
  · cases h
    rfl
  · split at h
    · cases h
    · cases h
      simp only [view_addAgent, StoreView.nonces_setAgent]

/-- A mint grants what the packet says. -/
theorem grant_of_mintFor {p : Packet} {calls : List ((c : Call) × Res c)}
    {token : Option CapabilityToken}
    (h : Follows (cp.mintFor p.event p.matchingRule p.decision.status) calls (.done token)) :
    token.map CapabilityToken.grant = p.granted := by
  obtain ⟨minted, _, hgranted⟩ := follows_mintFor_done h
  unfold Packet.granted grantUnder
  rcases hgranted with ⟨hheld, hnone, _⟩ | ⟨hperm, t, hsome, hmint⟩
  · dsimp only at hheld hnone
    rw [hheld, hnone]
    rfl
  · dsimp only at hperm hsome
    obtain ⟨now, expires, id, nonce, payload, _, _, rfl, _⟩ :=
      CapabilityService.follows_mint_done hmint
    rw [hperm, hsome]
    rfl

/-- An answered proposal returns the packet of its assessment, with a token. -/
theorem run_conclude_ok {p q : Packet} {w' : World S C L}
    (hrun : (cp.conclude p).run (worldHandler o keys replica) w = (.ok q, w')) :
    q.decision = p.decision ∧ q.token.map CapabilityToken.grant = p.granted := by
  have hpath := follows_trace (worldHandler o keys replica) (cp.conclude p) w
  rw [hrun, ofExcept_ok, conclude, follows_bind_done_iff] at hpath
  obtain ⟨token, mid, back, _, hmint, hrest⟩ := hpath
  simp only [perform_bind, follows_call_done_iff] at hrest
  obtain ⟨_, rest, rfl, hrest⟩ := hrest
  rw [follows_bind_done_iff] at hrest
  obtain ⟨r, last, back, rfl, _, hrest⟩ := hrest
  simp only [pure_eq_done, follows_done_iff, Prog.done.injEq] at hrest
  obtain ⟨_, rfl⟩ := hrest
  exact ⟨rfl, grant_of_mintFor hmint⟩

/-! ## The answer -/

section

variable [LawfulStore S]

variable (cp o keys replica) in
/-- A claimed nonce ends the assessment, and a free one leads to the answer of the policy
with the state as it was, but for the store. -/
theorem run_assess_ok {agent : AgentIdentity} {p : Packet} {w' : World S C L}
    (hrun : (cp.assess e agent).run (worldHandler o keys replica) w = (.ok p, w')) :
    (view w.store).nonces e.agentId e.nonce = false ∧ cp.assessment w.store e agent = .ok p ∧
      ∃ s, w' = { w with store := s } := by
  cases hnonce : (view w.store).nonces e.agentId e.nonce with
  | true =>
    obtain ⟨err, w'', hclaimed, _⟩ := run_assess_claimed cp o keys replica agent hnonce
    rw [hclaimed] at hrun
    cases hrun
  | false =>
    obtain ⟨s, _, _, hassess⟩ := run_assess cp o keys replica agent hnonce
    rw [hassess, Prod.mk.injEq] at hrun
    exact ⟨rfl, hrun.1, s, hrun.2.symm⟩

omit [LawfulStore S] in
theorem agent_of_assessment {s : S} {agent : AgentIdentity} {p : Packet}
    (h : cp.assessment s e agent = .ok p) : p.agent = agent := by
  obtain ⟨_, _, _, _, _, _, _, _, _, _, rfl⟩ := assessment_eq_ok_iff.mp h
  rfl

/-- What is authenticated and then answered has been assessed. -/
theorem assesses_of_run {agent : AgentIdentity} {p : Packet} {w₁ w₂ : World S C L}
    (hauth : (cp.authenticate e).run (worldHandler o keys replica) w = (.ok agent, w₁))
    (hassess : (cp.assess e agent).run (worldHandler o keys replica) w₁ = (.ok p, w₂)) :
    Assesses cp o w e w₁ p ∧ ∃ s, w₂ = { w₁ with store := s } := by
  obtain ⟨hfound, hauthentic⟩ := run_authenticate_eq_ok_iff.mp hauth
  obtain ⟨hfree, hanswered, hstore⟩ := run_assess_ok cp o keys replica hassess
  obtain rfl := agent_of_assessment hanswered
  rw [nonces_of_found hfound] at hfree
  exact ⟨⟨hfound, hauthentic, hfree, hanswered⟩, hstore⟩

variable (keys replica) in
theorem Assesses.run {p : Packet} {w₁ : World S C L} (h : Assesses cp o w e w₁ p) :
    (cp.authenticate e).run (worldHandler o keys replica) w = (.ok p.agent, w₁) ∧
      ∃ s, (cp.assess e p.agent).run (worldHandler o keys replica) w₁ =
        (.ok p, { w₁ with store := s }) := by
  obtain ⟨hfound, hauthentic, hfree, hanswered⟩ := h
  rw [← nonces_of_found hfound] at hfree
  obtain ⟨s, _, _, hassess⟩ := run_assess cp o keys replica p.agent hfree
  rw [hanswered] at hassess
  exact ⟨run_authenticate_eq_ok_iff.mpr ⟨hfound, hauthentic⟩, s, hassess⟩

variable [LawfulAuditLog L] [LawfulRecorder L]

variable (keys replica) in
/-- A proposal returns if it is assessed, its token expires within the calendar, and the
ledger can record the answer. -/
theorem run_proposeEvent_iff {out : Outcome} :
    (∃ q w', (cp.proposeEvent e).run (worldHandler o keys replica) w = (.ok q, w') ∧
        out = ⟨q.decision, q.token.map CapabilityToken.grant⟩) ↔
      ∃ w' p, Assesses cp o w e w' p ∧ cp.Expires o w' p.decision.status ∧
        p.ledgerDict.Encodable ∧ out = ⟨p.decision, p.granted⟩ := by
  unfold proposeEvent
  constructor
  · rintro ⟨q, w', hrun, rfl⟩
    obtain ⟨agent, w₁, hauth, hrun⟩ := run_bind_ok _ hrun
    obtain ⟨p, w₂, hassess, hconclude⟩ := run_bind_ok _ hrun
    obtain ⟨hassesses, s, rfl⟩ := assesses_of_run hauth hassess
    have hconcluded : Concluded cp o { w₁ with store := s } p _ _ :=
      ensures_conclude keys replica
    rw [hconclude] at hconcluded
    obtain ⟨hexpires, hencodable⟩ := hconcluded.returns.mp ⟨q, rfl⟩
    obtain ⟨hdecision, hgrant⟩ := run_conclude_ok hconclude
    exact ⟨w₁, p, hassesses, hexpires, hencodable, by rw [hdecision, hgrant]⟩
  · rintro ⟨w₁, p, hassesses, hexpires, hencodable, rfl⟩
    obtain ⟨hauth, s, hassess⟩ := hassesses.run keys replica
    have hconcluded : Concluded cp o { w₁ with store := s } p _ _ :=
      ensures_conclude keys replica
    obtain ⟨q, hq⟩ := hconcluded.returns.mpr ⟨hexpires, hencodable⟩
    cases hconclude : (cp.conclude p).run (worldHandler o keys replica) { w₁ with store := s } with
    | mk result w' =>
      rw [hconclude] at hq
      obtain rfl : result = .ok q := hq
      obtain ⟨hdecision, hgrant⟩ := run_conclude_ok hconclude
      refine ⟨q, w', ?_, by rw [hdecision, hgrant]⟩
      rw [run_bind, hauth]
      dsimp only
      rw [run_bind, hassess]
      exact hconclude

variable (replica) in
/-- The outcome of a proposal, from the state it finds. -/
theorem outcome_iff [Arithmetic F] {out : Outcome} :
    outcomeOf ((cp.system o).serve w (replica, .proposeEvent e)).result = some out ↔
      ∃ w' p, Assesses cp o w e w' p ∧ cp.Expires o w' p.decision.status ∧
        p.ledgerDict.Encodable ∧ out = ⟨p.decision, p.granted⟩ := by
  rw [← run_proposeEvent_iff cp.ledgerKeys replica]
  show outcomeOf ((cp.proposeEvent e >>= fun p => (.done (.packet p) : CpProg (Answer F))).run
    (worldHandler o cp.ledgerKeys replica) w).1 = some out ↔ _
  rw [run_bind]
  cases (cp.proposeEvent e).run (worldHandler o cp.ledgerKeys replica) w with
  | mk result w' =>
    cases result with
    | error err => simp [outcomeOf]
    | ok q => simp [outcomeOf, eq_comm]

end

/-! ## Tokens on record -/

/-- The turn puts a capability token on record. -/
def Issues (y : CpTurn F S C L) : Prop := ∃ c ∈ y.calls, c.1.recordsToken

instance (y : CpTurn F S C L) : Decidable (Issues y) :=
  inferInstanceAs (Decidable (∃ c ∈ y.calls, c.1.recordsToken))

/-- A mint that is not stopped by its lifetime or its conditions records the token. -/
theorem makes_mint {svc : CapabilityService P} {args : MintArgs} :
    (liftCap (svc.mint args)).Makes (worldHandler o keys replica) Call.recordsToken w ↔
      (∃ d, CapabilityService.expiry (o.time w.reads) args.ttlSeconds = .ok d) ∧
        args.conditions.toVal.Encodable := by
  unfold liftCap CapabilityService.mint
  simp only [perform_bind, embed, makes_call, Call.recordsToken, false_or]
  simp only [worldHandler, capHandler, capView]
  cases CapabilityService.expiry (o.time w.reads) args.ttlSeconds with
  | error err => simp [embed]
  | ok expires =>
    have hpayload := CapabilityToken.exists_signingPayload_iff
      (t := svc.unsignedToken args (o.time w.reads) expires (o.uuid w.draws)
        (o.uuid (w.draws + 1)))
    rw [show args.conditions.toVal.Encodable ↔ _ from hpayload.symm]
    simp only [ofExcept_ok, done_bind, embed, makes_call, Call.recordsToken, false_or]
    simp only [worldHandler, capHandler, capView, onCap]
    cases (svc.unsignedToken args (o.time w.reads) expires (o.uuid w.draws)
        (o.uuid (w.draws + 1))).signingPayload with
    | error err => simp [embed]
    | ok payload => simp [embed, Call.recordsToken]

theorem makes_mintFor {p : Packet} :
    (cp.mintFor p.event p.matchingRule p.decision.status).Makes (worldHandler o keys replica)
        Call.recordsToken w ↔
      p.decision.status.permissive = true ∧ cp.Expires o w p.decision.status ∧
        (cp.grantFor p.event p.matchingRule p.decision.status).conditions.toVal.Encodable := by
  unfold mintFor Expires
  cases hperm : p.decision.status.permissive with
  | false => simp
  | true =>
    simp only [if_true, makes_bind, makes_mint, pure_eq_done, makes_done, and_false, exists_false,
      or_false, true_and, forall_const]
    rfl

variable [LawfulStore S]

variable (replica) in
/-- A proposal puts a token on record if it is assessed, may proceed, and its token can be
minted. -/
theorem issues_iff [Arithmetic F] :
    Issues ((cp.system o).serve w (replica, .proposeEvent e)) ↔
      ∃ w' p, Assesses cp o w e w' p ∧ p.decision.status.permissive = true ∧
        cp.Expires o w' p.decision.status ∧
        (cp.grantFor p.event p.matchingRule p.decision.status).conditions.toVal.Encodable := by
  have hother {α : Type} {p : CpProg α} (hp : p.Uses fun c => ¬ c.recordsToken)
      (s : World S C L) : ¬ p.Makes (worldHandler o cp.ledgerKeys replica) Call.recordsToken s :=
    not_makes_of_uses hp fun _ => id
  have hplain (c : Call) (hc : c.plain = true) (_ : c.recordsTrust = false) : ¬ c.recordsToken := by
    cases c with
    | cap c => cases c <;> first | exact id | cases hc
    | _ => exact id
  have hauth : (cp.authenticate e).Uses fun c => ¬ c.recordsToken :=
    uses_authenticate hplain fun _ _ => id
  have hassess (agent : AgentIdentity) : (cp.assess e agent).Uses fun c => ¬ c.recordsToken :=
    uses_assess hplain id id id
  show (cp.proposeEvent e >>= fun p => (.done (.packet p) : CpProg (Answer F))).Makes
    (worldHandler o cp.ledgerKeys replica) Call.recordsToken w ↔ _
  simp only [proposeEvent, conclude, makes_bind, hother hauth, hother (hassess _), makes_mintFor,
    hother (uses_recordAnswer hplain _ _), makes_done, false_or, and_false, exists_false, or_false]
  constructor
  · rintro ⟨agent, w₁, hauth, p, w₂, hassess, hminted⟩
    obtain ⟨hassesses, s, rfl⟩ := assesses_of_run hauth hassess
    exact ⟨w₁, p, hassesses, hminted⟩
  · rintro ⟨w₁, p, hassesses, hminted⟩
    obtain ⟨hauth, s, hassess⟩ := hassesses.run cp.ledgerKeys replica
    exact ⟨p.agent, w₁, hauth, p, _, hassess, hminted⟩

end

end EarnedAutonomy
