import EarnedAutonomy.Core.TokenLog
import EarnedAutonomy.Core.StoreSteps

/-!
# Mediation

What stands behind an action that the enforcement point runs.

* `every_action_was_proposed`: its token was granted by an earlier proposal of
  the same agent, workflow and authority class, signed under the agent's key and
  on the ledger by now, and no other action shares that proposal's nonce.
* `actions_are_earned`: the proposal had earned the right to execute, as long as
  no proposal takes the branch of the policy for preparatory work.
  `unearned_action` is a run in which one does.

Both assume that signatures are not forged (`Unforged`).
-/

namespace EarnedAutonomy

open Atomic Service Prog Calendar Store LawfulStore

/-- One command of a run. -/
abbrev CpTurn (F S C L : Type) := Turn PyError (Nat × Command) Res (Answer F) (World S C L)

section

variable {P : Primitives} {F S C L : Type}

/-- The turn is a proposal that was answered with a packet. -/
structure Accepted (y : CpTurn F S C L) (e : WorkflowEvent) (p : ControlPlane.Packet) : Prop where
  request : y.request.2 = .proposeEvent e
  result : y.result = .ok (.packet p)

/-- Two tokens have the same signed bytes. -/
def CapabilityToken.SamePayload (t u : CapabilityToken) : Prop :=
  ∃ payload, t.signingPayload = .ok payload ∧ u.signingPayload = .ok payload

/-- Turn `j`, before turn `i`, is a proposal of `e` whose packet `p` handed out
the bytes that `t` is signed over. -/
def HandedOut (turns : List (CpTurn F S C L)) (i : Nat) (t : CapabilityToken) (j : Nat)
    (e : WorkflowEvent) (p : ControlPlane.Packet) : Prop :=
  j < i ∧ ∃ y u, turns[j]? = some y ∧ Accepted y e p ∧ p.token = some u ∧ t.SamePayload u

/-- Whoever presents a validly signed token presents bytes that the issuer has
signed: those of a token it has handed out, or the hash of a ledger record. -/
def Unforged (cp : ControlPlane P F) (turns : List (CpTurn F S C L)) : Prop :=
  ∀ i x t action outcome, turns[i]? = some x → x.request.2 = .execute (some t) action outcome →
    cp.capabilityService.signatureValid t = .ok true →
    (∃ j e p, HandedOut turns i t j e p) ∨ ∃ m, t.signingPayload = .ok (P.sha256 m)

/-- Call `n` of turn `i` runs the action. -/
def ActionRuns (turns : List (CpTurn F S C L)) (i n : Nat) (action : Invocation) : Prop :=
  ∃ x, turns[i]? = some x ∧ x.calls[n]? = some ⟨.invoke action, ()⟩

/-- The agent, the levels and the rule that a proposal finds. -/
structure Finds [Store S] (s : S) (e : WorkflowEvent) (agent : AgentIdentity)
    (current : AutonomyLevel) (rule? : Option DelegationRule) : Prop where
  known : getAgent e.agentId s = some agent
  standing : agent.autonomyFor e.workflowId e.authorityRequested = .ok current
  rule : matchingRule e s = .ok rule?

end

/-! ## Signed bytes -/

/-- The signed bytes of a token begin an object, and no hash does. -/
theorem signingPayload_ne_sha256 {P : Primitives} {t : CapabilityToken} (m : Bytes) :
    t.signingPayload ≠ .ok (P.sha256 m) := canonicalBytes_dict_ne_sha256 _ m

/-! ## What stays -/

section

variable {P : Primitives} {F : Type} [Arithmetic F] {cp : ControlPlane P F} {o : Oracle}
variable {S C L : Type} [Store S] [CapabilityStateStore C] [AuditLog L]
variable {turns : List (CpTurn F S C L)} {w w' : World S C L}

/-- The calls of an accepted proposal are those of `propose_event`, which returned. -/
theorem Accepted.follows {y : CpTurn F S C L} {e : WorkflowEvent} {p : ControlPlane.Packet}
    (hacc : Accepted y e p)
    (h : Follows ((cp.system (S := S) (C := C) (L := L) o).body y.request) y.calls
      (ofExcept y.result)) :
    Follows (cp.proposeEvent e) y.calls (.done p) := by
  obtain ⟨before, ⟨replica, cmd⟩, calls, result, after⟩ := y
  obtain ⟨rfl, rfl⟩ := hacc
  obtain ⟨q, hq, heq⟩ := Follows.of_map_done (p := cp.proposeEvent e) h
  obtain rfl : p = q := by simpa using heq
  exact hq

/-- A claimed nonce stays claimed. -/
theorem nonces_of_runs [LawfulStore S] (h : (cp.system o).Runs w turns w') {a n : String}
    (hn : (view w.store).nonces a n = true) : (view w'.store).nonces a n = true := by
  refine h.invariant (I := fun w => (view w.store).nonces a n = true) hn
    fun x _ hserve hbefore => ?_
  have hsteps := storeSteps_of_serve hserve
  generalize x.request.2 = cmd at hsteps
  refine hsteps.invariant (I := fun v => v.nonces a n = true) (fun u u' hstep hu => ?_) hbefore
  cases hstep with
  | claim => simp [hu]
  | _ => exact hu

/-- A record stays on the ledger. -/
theorem records_of_runs [LawfulAuditLog L] (h : (cp.system o).Runs w turns w') {r : AuditRecord}
    (hr : r ∈ AuditLog.records w.ledger) : r ∈ AuditLog.records w'.ledger := by
  refine h.invariant_of_calls (I := fun w => r ∈ AuditLog.records w.ledger) hr
    fun request op s hs => ?_
  change r ∈ AuditLog.records (worldHandler o cp.ledgerKeys request.1 op s).2.ledger
  cases op with
  | applyDecision a wf k d =>
    simp only [worldHandler]
    split <;> exact hs
  | append eventType payload actorId =>
    simp only [worldHandler]
    cases happ : AuditLog.append cp.ledgerKeys ⟨eventType, payload, actorId,
        newId "aud" (o.uuid s.draws), isoformat (o.time s.reads)⟩ s.ledger with
    | mk result l' =>
      cases result with
      | ok r' =>
        obtain ⟨r'', hl', _⟩ := LawfulAuditLog.append_ok _ _ _ _ _ happ
        rw [hl']
        exact List.mem_append_left _ hs
      | error err =>
        rw [LawfulAuditLog.append_error _ _ _ _ _ happ]
        exact hs
  | _ => exact hs

/-- The capability service reaches neither the store nor the ledger. -/
theorem answers_capCalls {keys : KeyPair P} {replica : Nat} {s t : World S C L}
    {cs : List ((c : CapCall) × CapRes c)}
    (h : Answers (worldHandler o keys replica) s (capCalls cs) t) :
    t.store = s.store ∧ t.ledger = s.ledger := by
  refine h.invariant (I := fun u => u.store = s.store ∧ u.ledger = s.ledger) ?_ ⟨rfl, rfl⟩
  intro c hc u hu
  obtain ⟨d, _, rfl⟩ := List.mem_map.mp hc
  exact hu

/-! ## Actions -/

/-- What the enforcement point has checked before an action. -/
structure Checked (cp : ControlPlane P F) (x : CpTurn F S C L) (n : Nat) (action : Invocation) :
    Prop where
  last : n + 1 = x.calls.length
  presented : ∃ a outcome, x.request.2 = .execute (some action.token) a outcome
  signature : cp.capabilityService.signatureValid action.token = .ok true
  agentId : action.agentId = action.token.agentId
  workflowId : action.workflowId = action.token.workflowId
  authorityClass : action.authorityClass = action.token.authorityClass
  consumed : action.token.singleUse = true →
    ⟨.cap (.tryConsume action.token.tokenId), true⟩ ∈ x.calls

theorem ActionRuns.checked {i n : Nat} {action : Invocation} (hact : ActionRuns turns i n action)
    (h : (cp.system o).Runs w turns w') :
    ∃ x, turns[i]? = some x ∧ Checked cp x n action := by
  obtain ⟨x, hi, hn⟩ := hact
  obtain ⟨t, a, outcome, cs, r, hcmd, rfl, hcs, hok, hcalls⟩ :=
    ControlPlane.follows_body_invoke (h.follows hi) (List.mem_of_getElem? hn)
  obtain ⟨hsig, hscope, expires, now, _, _, rfl⟩ :=
    CapabilityService.follows_verifyForAction_ok hcs hok
  obtain ⟨hagent, hworkflow, hclass⟩ := CapabilityService.scope_of_scopeRefusal hscope
  refine ⟨x, hi, ⟨?_, ⟨a, outcome, hcmd⟩, hsig, hagent, hworkflow, hclass, fun hsingle => ?_⟩⟩
  · -- the calls before the action are those of the verification
    have hlt := (List.getElem?_eq_some_iff.mp hn).1
    rcases Nat.lt_or_ge n (capCalls _).length with hfront | hback
    · rw [hcalls, List.getElem?_append_left hfront] at hn
      have := List.mem_of_getElem? hn
      simp [capCalls] at this
    · rw [hcalls, List.length_append, List.length_singleton] at hlt ⊢
      exact Nat.le_antisymm hlt (Nat.succ_le_succ hback)
  · rw [hcalls, if_pos hsingle]
    exact List.mem_append_left _ (by simp [capCalls])

/-- Every action was handed its token by a proposal. -/
theorem exists_handedOut (h : (cp.system o).Runs w turns w') (hunforged : Unforged cp turns)
    {i n : Nat} {action : Invocation} (hact : ActionRuns turns i n action) :
    ∃ j e p, HandedOut turns i action.token j e p := by
  obtain ⟨x, hi, hchecked⟩ := hact.checked h
  obtain ⟨a, outcome, hcmd⟩ := hchecked.presented
  rcases hunforged i x _ a outcome hi hcmd hchecked.signature with hout | ⟨m, hm⟩
  · exact hout
  · exact absurd hm (signingPayload_ne_sha256 m)

variable [LawfulStore S] [LawfulAuditLog L]

/-! ## Accepted proposals -/

omit [Arithmetic F] [LawfulAuditLog L] in
/-- A proposal of a registered agent works with the agent, the level and the rule
of the state it finds. -/
theorem finds_of_proposal {keys : KeyPair P} {replica : Nat} {s s' : World S C L}
    {e : WorkflowEvent} {p : ControlPlane.Packet} {calls : List ((c : Call) × Res c)}
    (hpath : Follows (cp.proposeEvent e) calls (.done p))
    (hanswers : Answers (worldHandler o keys replica) s calls s')
    (hknown : cp.config.strictMode = true ∨ getAgent e.agentId s.store ≠ none) :
    Finds s.store e p.agent p.currentLevel p.matchingRule := by
  obtain ⟨front, minted, r, hauth, hassessed, _, rfl⟩ :=
    ControlPlane.follows_proposeEvent_done hpath
  have hfront : front = [⟨.getAgent e.agentId, some p.agent⟩] := by
    obtain ⟨_, _, hfront | ⟨hloose, now, _, rfl⟩⟩ := ControlPlane.follows_authenticate_done hauth
    · exact hfront
    · have hunknown : getAgent e.agentId s.store = none := hanswers.1
      simp [hloose, hunknown] at hknown
  subst hfront
  simp only [answers_append, ControlPlane.readingCalls, Answers, worldHandler] at hanswers
  obtain ⟨_, ⟨hagent, rfl⟩, _, ⟨_, _, hrule, _⟩, _⟩ := hanswers
  rw [matchingRule_addEvent, matchingRule_claimNonce] at hrule
  exact ⟨hagent, hassessed.level, hrule⟩

/-- What an accepted proposal has established. -/
structure Established (cp : ControlPlane P F) (y : CpTurn F S C L) (e : WorkflowEvent)
    (p : ControlPlane.Packet) : Prop where
  finds : Finds y.before.store e p.agent p.currentLevel p.matchingRule
  active : p.agent.active = true
  signed : ControlPlane.signedBy (P := P) p.agent e = .ok true
  unclaimed : (view y.before.store).nonces e.agentId e.nonce = false
  claimed : (view y.after.store).nonces e.agentId e.nonce = true
  assessed : ControlPlane.Assessed cp e p
  granted : ∃ minted, ControlPlane.Granted cp p minted ∧ ∀ c ∈ capCalls minted, c ∈ y.calls
  recorded : ∃ r ∈ AuditLog.records y.after.ledger, ∃ id time,
    r.IsFor ⟨"workflow.event.proposed", p.ledgerDict, some e.agentId, id, time⟩

theorem Accepted.established {i : Nat} {y : CpTurn F S C L} {e : WorkflowEvent}
    {p : ControlPlane.Packet} (hacc : Accepted y e p) (h : (cp.system o).Runs w turns w')
    (hi : turns[i]? = some y) (hstrict : cp.config.strictMode = true) :
    Established cp y e p := by
  have hp' := hacc.follows (h.follows hi)
  have hanswers := h.answers hi
  obtain ⟨before, ⟨replica, cmd⟩, calls, result, after⟩ := y
  obtain ⟨rfl, rfl⟩ := hacc
  obtain ⟨front, minted, r, hauth, hassessed, hgranted, rfl⟩ :=
    ControlPlane.follows_proposeEvent_done hp'
  have hfinds := finds_of_proposal hp' hanswers (Or.inl hstrict)
  obtain ⟨hactive, hsigned, hfront⟩ := ControlPlane.follows_authenticate_done hauth
  have hfront : front = [⟨.getAgent e.agentId, some p.agent⟩] := by
    simpa [hstrict] using hfront
  subst hfront
  have hanswers : Answers (worldHandler o cp.ledgerKeys replica) before
      ([⟨.getAgent e.agentId, some p.agent⟩] ++ (ControlPlane.readingCalls e p ++
        (capCalls minted ++ ControlPlane.recordingCalls p r))) after := hanswers
  simp only [answers_append, ControlPlane.readingCalls, ControlPlane.recordingCalls, Answers,
    worldHandler] at hanswers
  obtain ⟨s, ⟨_, rfl⟩, _, ⟨hclaim, _, _, _, rfl⟩, t, hmint, _, happend, rfl⟩ := hanswers
  obtain ⟨hstore, _⟩ := answers_capCalls hmint
  obtain ⟨hfree, hview⟩ := view_claimNonce e.agentId e.nonce s.store
  have hid : p.event.agentId = e.agentId := by
    rw [hassessed.event]
    rfl
  refine ⟨hfinds, hactive, hsigned hstrict, ?_, ?_, hassessed,
    ⟨minted, hgranted, by simp +contextual⟩, ?_⟩
  · simpa [hclaim] using hfree.symm
  · change (view t.store).nonces e.agentId e.nonce = true
    rw [hstore]
    rcases view_touchEvent p.event (addEvent e (claimNonce e.agentId e.nonce s.store).2)
      with h | h <;> simp [h, view_addEvent, hview]
  · obtain ⟨r', hrecords, hfor⟩ := LawfulAuditLog.append_ok _ _ _ _ _ (Prod.ext happend rfl)
    refine ⟨r', ?_, _, _, hid ▸ hfor⟩
    change r' ∈ AuditLog.records (AuditLog.append _ _ _).2
    rw [hrecords]
    exact List.mem_append_right _ List.mem_cons_self

/-- The proposal that a token comes from. -/
structure Origin (cp : ControlPlane P F) (y : CpTurn F S C L) (t u : CapabilityToken)
    (e : WorkflowEvent) (p : ControlPlane.Packet) : Prop where
  established : Established cp y e p
  permissive : p.decision.status.permissive = true
  token : p.token = some u
  tokenId : t.tokenId = u.tokenId
  agentId : t.agentId = e.agentId
  workflowId : t.workflowId = e.workflowId
  authorityClass : t.authorityClass = e.authorityRequested
  singleUse : t.singleUse = true

theorem HandedOut.origin {i j : Nat} {t : CapabilityToken} {e : WorkflowEvent}
    {p : ControlPlane.Packet} (hout : HandedOut turns i t j e p)
    (h : (cp.system o).Runs w turns w') (hstrict : cp.config.strictMode = true) :
    ∃ y u, turns[j]? = some y ∧ Accepted y e p ∧ Origin cp y t u e p := by
  obtain ⟨_, y, u, hj, hacc, htoken, payload, ht, hu⟩ := hout
  have hest := hacc.established h hj hstrict
  obtain ⟨htid, hagent, hworkflow, hclass, _, hsingle, _⟩ :=
    CapabilityToken.eq_fields_of_signingPayload ht hu
  obtain ⟨minted, hgranted, _⟩ := hest.granted
  rcases hgranted with ⟨_, hnone, _⟩ | ⟨hperm, u', hu', hmint⟩
  · rw [htoken] at hnone
    cases hnone
  · obtain rfl : u = u' := by simpa [htoken] using hu'
    obtain ⟨now, expires, id, nonce, _, _, _, hfields, _⟩ :=
      CapabilityService.follows_mint_done hmint
    rw [hest.assessed.event] at hfields
    exact ⟨y, u, hj, hacc, hest, hperm, htoken, htid, by rw [hagent, hfields]; rfl,
      by rw [hworkflow, hfields]; rfl, by rw [hclass, hfields]; rfl, by rw [hsingle, hfields]; rfl⟩

/-! ## Complete mediation -/

/-- The proposal that an action came from, as the action needs it. -/
structure Mediated (P : Primitives) (x y : CpTurn F S C L) (action : Invocation)
    (e : WorkflowEvent) (p : ControlPlane.Packet) : Prop where
  agentId : e.agentId = action.agentId
  workflowId : e.workflowId = action.workflowId
  authorityRequested : e.authorityRequested = action.authorityClass
  signed : ∃ agent, getAgent action.agentId y.before.store = some agent ∧
    ControlPlane.signedBy (P := P) agent e = .ok true
  status : p.decision.status = .allowed ∨ p.decision.status = .sampleReview
  recorded : ∃ r ∈ AuditLog.records x.before.ledger, ∃ id time,
    r.IsFor ⟨"workflow.event.proposed", p.ledgerDict, some action.agentId, id, time⟩

theorem HandedOut.mediated {i j n : Nat} {x : CpTurn F S C L} {action : Invocation}
    {e : WorkflowEvent} {p : ControlPlane.Packet} (hout : HandedOut turns i action.token j e p)
    (h : (cp.system o).Runs w turns w') (hstrict : cp.config.strictMode = true)
    (hi : turns[i]? = some x) (hchecked : Checked cp x n action) :
    ∃ y, turns[j]? = some y ∧ Accepted y e p ∧ Mediated P x y action e p := by
  obtain ⟨y, u, hj, hacc, horigin⟩ := hout.origin h hstrict
  have hagent : e.agentId = action.agentId := horigin.agentId.symm.trans hchecked.agentId.symm
  obtain ⟨turns', hbetween⟩ := h.between hout.1 hj hi
  obtain ⟨r, hr, id, time, hfor⟩ := horigin.established.recorded
  refine ⟨y, hj, hacc, ⟨hagent, horigin.workflowId.symm.trans hchecked.workflowId.symm,
    horigin.authorityClass.symm.trans hchecked.authorityClass.symm, ⟨p.agent, ?_, ?_⟩, ?_, ?_⟩⟩
  · exact hagent ▸ horigin.established.finds.known
  · exact horigin.established.signed
  · simpa [AutonomyStatus.permissive] using horigin.permissive
  · exact ⟨r, records_of_runs hbetween hr, id, time, hagent ▸ hfor⟩

omit [LawfulAuditLog L] in
/-- Two accepted proposals of one nonce are one. -/
theorem eq_of_nonces {j j' : Nat} {y y' : CpTurn F S C L} {e e' : WorkflowEvent}
    {p p' : ControlPlane.Packet} (h : (cp.system o).Runs w turns w')
    (hj : turns[j]? = some y) (hj' : turns[j']? = some y')
    (hest : Established cp y e p) (hest' : Established cp y' e' p')
    (hnonce : (e.agentId, e.nonce) = (e'.agentId, e'.nonce)) : j = j' := by
  obtain ⟨hagent, hn⟩ := Prod.mk.inj hnonce
  -- the nonce of the earlier one is claimed when the later one comes
  rcases Nat.lt_trichotomy j j' with hlt | heq | hgt
  · obtain ⟨_, hbetween⟩ := h.between hlt hj hj'
    have hclaimed := nonces_of_runs hbetween hest.claimed
    rw [hagent, hn, hest'.unclaimed] at hclaimed
    cases hclaimed
  · exact heq
  · obtain ⟨_, hbetween⟩ := h.between hgt hj' hj
    have hclaimed := nonces_of_runs hbetween hest'.claimed
    rw [← hagent, ← hn, hest.unclaimed] at hclaimed
    cases hclaimed

end

section

variable {P : Primitives} {F : Type} [Arithmetic F] {cp : ControlPlane P F} {o : Oracle}
variable {S L : Type} [Store S] [LawfulStore S] [AuditLog L] [LawfulAuditLog L]
variable {turns : List (CpTurn F S SqlCapabilityStore L)} {w : World S SqlCapabilityStore L}

omit [LawfulStore S] [LawfulAuditLog L] in
/-- One token is good for one action. -/
theorem eq_of_tokens (h : (cp.system o).Runs (World.initial S SqlCapabilityStore L) turns w)
    (hfresh : o.Fresh) {i i' n n' : Nat} {x x' : CpTurn F S SqlCapabilityStore L}
    {action action' : Invocation} (hi : turns[i]? = some x) (hi' : turns[i']? = some x')
    (hchecked : Checked cp x n action) (hchecked' : Checked cp x' n' action')
    (hsingle : action.token.singleUse = true) (hsingle' : action'.token.singleUse = true)
    (htoken : action.token.tokenId = action'.token.tokenId) : i = i' ∧ n = n' := by
  obtain ⟨q, hq, _, _, hcalls⟩ := h.leads (p := fresh _) .refl rfl
  have hcalls : ∀ k z, turns[k]? = some z → calls q.log k = z.calls := fun k z hk => by
    rw [← hcalls k z hk]
    exact congrArg _ (Nat.zero_add k).symm
  have hlog := hchecked.consumed hsingle
  rw [← hcalls i x hi] at hlog
  have hlog' := hchecked'.consumed hsingle'
  rw [← hcalls i' x' hi', ← htoken] at hlog'
  obtain rfl := consumed_at_most_once hq hfresh (fun _ => rfl) (mem_calls_iff.mp hlog)
    (mem_calls_iff.mp hlog')
  obtain rfl : x = x' := by simpa [hi] using hi'
  exact ⟨rfl, Nat.succ_injective (hchecked.last.trans hchecked'.last.symm)⟩

/-- In strict mode, every action that the enforcement point runs was proposed
before: signed by its agent, allowed by the policy and on the ledger by now.
Two actions come from two proposals with two nonces. -/
theorem every_action_was_proposed
    (h : (cp.system o).Runs (World.initial S SqlCapabilityStore L) turns w)
    (hstrict : cp.config.strictMode = true) (hfresh : o.Fresh) (hunforged : Unforged cp turns) :
    (∀ i n action, ActionRuns turns i n action → ∃ x j y e p, turns[i]? = some x ∧
      HandedOut turns i action.token j e p ∧ turns[j]? = some y ∧ Accepted y e p ∧
      Mediated P x y action e p) ∧
    ∀ i n action i' n' action', ActionRuns turns i n action → ActionRuns turns i' n' action' →
      (i, n) ≠ (i', n') → ∀ j e p j' e' p', HandedOut turns i action.token j e p →
        HandedOut turns i' action'.token j' e' p' →
        j ≠ j' ∧ (e.agentId, e.nonce) ≠ (e'.agentId, e'.nonce) := by
  refine ⟨fun i n action hact => ?_, fun i n action i' n' action' hact hact' hne j e p j' e' p'
    hout hout' => ?_⟩
  · obtain ⟨x, hi, hchecked⟩ := hact.checked h
    obtain ⟨j, e, p, hout⟩ := exists_handedOut h hunforged hact
    obtain ⟨y, hj, hacc, hmediated⟩ := hout.mediated h hstrict hi hchecked
    exact ⟨x, j, y, e, p, hi, hout, hj, hacc, hmediated⟩
  · obtain ⟨x, hi, hchecked⟩ := hact.checked h
    obtain ⟨x', hi', hchecked'⟩ := hact'.checked h
    obtain ⟨y, u, hj, hacc, horigin⟩ := hout.origin h hstrict
    obtain ⟨y', u', hj', hacc', horigin'⟩ := hout'.origin h hstrict
    have hproposals : j ≠ j' := by
      rintro rfl
      obtain rfl : y = y' := by simpa [hj] using hj'
      obtain rfl : p = p' := by simpa [hacc.result] using hacc'.result
      obtain rfl : u = u' := by simpa [horigin.token] using horigin'.token
      obtain ⟨rfl, rfl⟩ := eq_of_tokens h hfresh hi hi' hchecked hchecked' horigin.singleUse
        horigin'.singleUse (horigin.tokenId.trans horigin'.tokenId.symm)
      exact hne rfl
    exact ⟨hproposals, fun hnonce => hproposals
      (eq_of_nonces h hj hj' horigin.established horigin'.established hnonce)⟩

end

/-! ## Earned execution -/

section

variable {P : Primitives} {F : Type} {S C L : Type} [Store S]

/-- The proposal takes the branch of the policy for preparatory work: it asks for
a class that changes state, is not marked as an execution, stands below the
approval rung, and nothing else stops it. -/
def Preparatory (cp : ControlPlane P F) (s : S) (e : WorkflowEvent) : Prop :=
  isNonState e.authorityRequested = false ∧ e.requiresExecution = false ∧
    ∃ agent current rule?, Finds s e agent current rule? ∧
      (effectiveLevel e.authorityRequested current rule?).value ≤ AutonomyLevel.draft.value ∧
      cp.policyEngine.bounds (ControlPlane.withApprovedWorkflows e agent) = false ∧
      guardsClear current rule? (ControlPlane.withApprovedWorkflows e agent)

/-- The proposal that minted the token of a state-changing action found a level
at which execution is earned. -/
def Earned (turns : List (CpTurn F S C L)) : Prop :=
  ∀ i n action, ActionRuns turns i n action → isNonState action.authorityClass = false →
    (∃ j e p, HandedOut turns i action.token j e p) ∧
    ∀ j e p, HandedOut turns i action.token j e p → ∃ y agent current rule?,
      turns[j]? = some y ∧ Finds y.before.store e agent current rule? ∧
      AutonomyLevel.executeWithSampling.value ≤
        min (max current.value (ruleLevelValue rule?))
          (autonomyCeilingFor action.authorityClass).value

variable [LawfulStore S] [CapabilityStateStore C] [AuditLog L] [LawfulAuditLog L] [Arithmetic F]
variable {cp : ControlPlane P F} {o : Oracle} {turns : List (CpTurn F S C L)}
variable {w w' : World S C L}

/-- In strict mode with strict boundary rules, every action that changes state
was earned, as long as no proposal takes the branch for preparatory work. -/
theorem actions_are_earned (h : (cp.system o).Runs (World.initial S C L) turns w)
    (hstrict : cp.config.strictMode = true) (hengine : cp.policyEngine.Strict)
    (hunforged : Unforged cp turns)
    (hsafe : ∀ x ∈ turns, ∀ e, x.request.2 = .proposeEvent e →
      ¬ Preparatory cp x.before.store e) : Earned turns := by
  intro i n action hact hclass
  obtain ⟨x, hi, hchecked⟩ := hact.checked h
  refine ⟨exists_handedOut h hunforged hact, fun j e p hout => ?_⟩
  obtain ⟨y, u, hj, hacc, horigin⟩ := hout.origin h hstrict
  have hrequested : action.authorityClass = e.authorityRequested :=
    hchecked.authorityClass.trans horigin.authorityClass
  refine ⟨y, p.agent, p.currentLevel, p.matchingRule, hj, horigin.established.finds, ?_⟩
  obtain ⟨consequences, risk, heval⟩ := horigin.established.assessed.decision
  rw [horigin.established.assessed.event] at heval
  obtain ⟨hbounds, hclear, hrung⟩ :=
    (permissive_evaluate_iff hengine).mp ⟨_, heval, horigin.permissive⟩
  rw [hrequested, ← value_effectiveLevel]
  rcases hrung with ⟨hnonState, _⟩ | ⟨hlow, hnoExec⟩ | ⟨hhigh, _⟩
  · rw [hrequested] at hclass
    exact absurd hnonState (by simpa [ControlPlane.withApprovedWorkflows] using hclass)
  · exact absurd ⟨hrequested ▸ hclass, hnoExec, p.agent, p.currentLevel, p.matchingRule,
      horigin.established.finds, hlow, hbounds, hclear⟩
      (hsafe y (List.mem_of_getElem? hj) e hacc.request)
  · exact hhigh

end

/-! ### Two runs -/

/-- The token of a packet. -/
def tokenOf {F : Type} : Except PyError (Answer F) → Option CapabilityToken
  | .ok (.packet p) => p.token
  | _ => none

/-- A signed proposal to change a record. -/
def demoEvent (requiresExecution : Bool) : WorkflowEvent where
  agentId := "agent"
  humanOwnerId := "owner"
  workflowId := "claims"
  workflowStage := "review"
  eventType := .proposedAction
  intent := "set the status"
  authorityRequested := .modifyInternalRecord
  proposedNextState := "closed"
  expectedEffect := "the record is closed"
  evidence := []
  confidence := .fin 0
  requiresExecution := requiresExecution
  nonce := "n1"
  signature := some "key"
  eventId := "evt_1"
  timestamp := "2026-01-01T00:00:00+00:00"
  metadata := []

/-- Serve the requests, propose, and present the token that was handed out. -/
def presentAfter (first : List (Nat × Command)) (e : WorkflowEvent) : List (Nat × Command) :=
  first ++ [(0, .proposeEvent e), (0, .execute
    (tokenOf (demoSystem.serve (demoSystem.final (World.initial _ _ _) first)
      (0, .proposeEvent e)).result)
    { agentId := "agent", workflowId := "claims", authorityClass := .modifyInternalRecord }
    (.ok .none))]

/-- A rule lets the agent execute under sampling. -/
def earnedDemo : List (Nat × Command) :=
  presentAfter [(0, .registerAgent demoAgent), (0, .approveDelegationRule
    (demoRule .modifyInternalRecord .executeWithSampling) "approver" none)] (demoEvent true)

/-- The agent stands at the bottom of the ladder and says that it will not execute. -/
def unearnedDemo : List (Nat × Command) :=
  presentAfter [(0, .registerAgent demoAgent)] (demoEvent false)

theorem presentAfter_proposal (first : List (Nat × Command)) (e : WorkflowEvent) :
    (demoSystem.history (World.initial _ _ _) (presentAfter first e))[first.length]? =
      some (demoSystem.serve (demoSystem.final (World.initial _ _ _) first)
        (0, .proposeEvent e)) :=
  getElem?_history_append _ _ _ _

theorem exists_packet_of_tokenOf {F : Type} {r : Except PyError (Answer F)}
    {t : CapabilityToken} (h : tokenOf r = some t) :
    ∃ p, r = .ok (.packet p) ∧ p.token = some t := by
  unfold tokenOf at h
  split at h
  · exact ⟨_, rfl, h⟩
  · cases h

/-- The only token that is presented is the one that was handed out. -/
theorem unforged_presentAfter {first : List (Nat × Command)} {e : WorkflowEvent}
    (hfirst : ∀ r ∈ first, ∀ t a outcome, r.2 ≠ .execute (some t) a outcome) :
    Unforged demoPlane (demoSystem.history (World.initial _ _ _) (presentAfter first e)) := by
  intro i x t a outcome hi hcmd hsig
  have hreq := getElem?_history hi
  rw [presentAfter] at hreq
  rcases Nat.lt_or_ge i first.length with hlt | hge
  · rw [List.getElem?_append_left hlt] at hreq
    exact absurd hcmd (hfirst _ (List.mem_of_getElem? hreq) _ _ _)
  · rw [List.getElem?_append_right hge] at hreq
    rcases hk : i - first.length with _ | _ | k
    · rw [hk] at hreq
      obtain heq := Option.some.inj hreq
      rw [← heq] at hcmd
      cases hcmd
    · rw [hk] at hreq
      obtain heq := Option.some.inj hreq
      rw [← heq, Command.execute.injEq] at hcmd
      obtain ⟨p, hp, htoken⟩ := exists_packet_of_tokenOf hcmd.1
      obtain ⟨payload, hpayload⟩ :=
        CapabilityService.exists_payload_of_signatureValid _ hsig rfl
      exact Or.inl ⟨first.length, e, p, by omega, _, t, presentAfter_proposal first e,
        ⟨rfl, hp⟩, htoken, payload, hpayload, hpayload⟩
    · rw [hk] at hreq
      cases hreq

/-- The action that call `n` of turn `i` runs. -/
def action? {F S C L : Type} (turns : List (CpTurn F S C L)) (i n : Nat) : Option Invocation :=
  match turns[i]?.bind fun x => x.calls[n]? with
  | some ⟨.invoke action, _⟩ => some action
  | _ => none

theorem actionRuns_of_action? {F S C L : Type} {turns : List (CpTurn F S C L)} {i n : Nat}
    {action : Invocation} (h : action? turns i n = some action) : ActionRuns turns i n action := by
  unfold action? at h
  split at h
  · rename_i heq
    obtain ⟨x, hi, hn⟩ := Option.bind_eq_some_iff.mp heq
    cases h
    exact ⟨x, hi, hn⟩
  · cases h

private theorem earnedDemo_runs : ∃ action,
    ActionRuns (demoSystem.history (World.initial _ _ _) earnedDemo) 3 3 action := by
  have hsome :
      (action? (demoSystem.history (World.initial _ _ _) earnedDemo) 3 3).isSome = true := by
    decide +kernel
  obtain ⟨action, hact⟩ := Option.isSome_iff_exists.mp hsome
  exact ⟨action, actionRuns_of_action? hact⟩

private theorem unforged_earnedDemo :
    Unforged demoPlane (demoSystem.history (World.initial _ _ _) earnedDemo) :=
  unforged_presentAfter (by simp)

/-- The action that runs under sampling was proposed before. -/
theorem earned_action_was_proposed :
    let turns := demoSystem.history (World.initial _ _ _) earnedDemo
    ∃ action, ActionRuns turns 3 3 action ∧ ∃ x j y e p, turns[3]? = some x ∧
      HandedOut turns 3 action.token j e p ∧ turns[j]? = some y ∧ Accepted y e p ∧
      Mediated Primitives.named x y action e p := by
  obtain ⟨action, hact⟩ := earnedDemo_runs
  exact ⟨action, hact, (every_action_was_proposed (runs_history _ _) rfl (demoOracle_fresh _)
    unforged_earnedDemo).1 3 3 action hact⟩

/-- It was earned. -/
theorem sampled_action_is_earned :
    let turns := demoSystem.history (World.initial _ _ _) earnedDemo
    (∃ action, ActionRuns turns 3 3 action) ∧ Earned turns := by
  refine ⟨earnedDemo_runs, actions_are_earned (runs_history _ _) rfl (by decide)
    unforged_earnedDemo fun x hx e hcmd hprep => ?_⟩
  have hmem := request_mem_of_mem_history hx
  simp only [earnedDemo, presentAfter, List.cons_append, List.nil_append, List.mem_cons,
    List.not_mem_nil, or_false] at hmem
  rcases hmem with h | h | h | h <;> rw [h] at hcmd <;> cases hcmd
  cases hprep.2.1

/-- A registered agent without a level or a rule stands at the bottom. -/
private theorem bottom_of_finds {agent : AgentIdentity} {current : AutonomyLevel}
    {rule? : Option DelegationRule}
    (h : Finds (demoSystem.final (World.initial _ _ _) [(0, .registerAgent demoAgent)]).store
      (demoEvent false) agent current rule?) : current = .observeOnly ∧ rule? = none := by
  have hagent : some agent = some demoAgent := h.known.symm
  obtain rfl := Option.some.inj hagent
  have hcurrent : Except.ok current = (.ok .observeOnly : Except PyError _) := h.standing.symm
  have hrule : Except.ok rule? = (.ok none : Except PyError _) := h.rule.symm
  exact ⟨Except.ok.inj hcurrent, Except.ok.inj hrule⟩

/-- An agent at the bottom of the ladder marks its proposal as no execution, is
answered with a token, and has its action run. -/
theorem unearned_action :
    let turns := demoSystem.history (World.initial _ _ _) unearnedDemo
    let w : SqlWorld := demoSystem.final (World.initial _ _ _) unearnedDemo
    demoSystem.Runs (World.initial _ _ _) turns w ∧ demoPlane.policyEngine = {} ∧
      Unforged demoPlane turns ∧ ¬ Earned turns := by
  intro turns w
  refine ⟨runs_history _ _, rfl, unforged_presentAfter (by simp), fun hearned => ?_⟩
  have haction : (action? turns 2 3).any (fun a => !isNonState a.authorityClass) = true := by
    decide +kernel
  obtain ⟨action, hact, hclass⟩ := (Option.any_eq_true _ _).mp haction
  obtain ⟨⟨j, e, p, hout⟩, hall⟩ :=
    hearned 2 3 action (actionRuns_of_action? hact) (by simpa using hclass)
  obtain ⟨y, agent, current, rule?, hj, hfinds, hbound⟩ := hall j e p hout
  obtain ⟨_, y', _, hj', hacc, _⟩ := hout
  obtain rfl : y = y' := by simpa [hj] using hj'
  -- the only proposal is the one of the agent at the bottom
  have hreq := getElem?_history hj
  have hcmd := hacc.request
  obtain ⟨rfl, rfl⟩ : j = 1 ∧ e = demoEvent false := by
    rcases j with _ | _ | _ | j
    · rw [← Option.some.inj hreq] at hcmd
      cases hcmd
    · rw [← Option.some.inj hreq] at hcmd
      cases hcmd
      exact ⟨rfl, rfl⟩
    · rw [← Option.some.inj hreq] at hcmd
      cases hcmd
    · cases hreq
  obtain rfl := Option.some.inj (hj.symm.trans (presentAfter_proposal [_] (demoEvent false)))
  obtain ⟨rfl, rfl⟩ := bottom_of_finds hfinds
  exact absurd (hbound.trans (Nat.min_le_left _ _)) (by decide)

end EarnedAutonomy
