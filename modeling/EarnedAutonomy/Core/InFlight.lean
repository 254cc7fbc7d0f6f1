import EarnedAutonomy.Core.ClosedScopes
import EarnedAutonomy.Core.ConcurrentIncidents

/-!
# Proposals that are under way at an incident

`propose_event` looks for a rule, asks the policy and mints in steps of their own.
`record_incident` takes the rules out of force and then revokes the tokens on record.
Nothing holds the two apart.

* `Overtaken`: the rule that a proposal has found was taken out of force by an incident
  that has revoked the tokens of the scope already.
* `unusable_of_leads`: in a run in which no overtaken proposal records its token, the
  tokens of the rule cannot be consumed once the incident has revoked.
* `incident_beats_proposals`: so no verification accepts one after the incident.
* `mint_after_revocation`: an overtaken proposal mints, and its token is accepted.
-/

namespace EarnedAutonomy

open Atomic Service Prog Calendar Store LawfulStore CapabilityStateStore CapabilityService
open ControlPlane hiding body

/-! ## The row of a token -/

/-- No row of the token can be consumed. -/
def Unusable (K : String) (s : SqlCapabilityStore) : Prop :=
  ∀ r, s.row? K = some r → r.consumed = true ∨ r.revoked = true

section

variable {K : String} {s : SqlCapabilityStore}

theorem Unusable.tryConsume (h : Unusable K s) : (s.tryConsume K).1 = false := by
  rw [Bool.eq_false_iff]
  intro hconsumed
  obtain ⟨r, hr, hlive, hunmarked⟩ := (s.tryConsume_eq_true_iff K).mp hconsumed
  rcases h r hr with hmark | hmark
  · rw [hmark] at hlive
    cases hlive
  · rw [hmark] at hunmarked
    cases hunmarked

/-- A revocation takes back the rows of its scope. -/
theorem unusable_revokeScope {a w c : String}
    (h : ∀ r, s.row? K = some r → r.entry.inScope a w c = true) :
    Unusable K (s.revokeScope a w c).2 := by
  intro r hr
  rw [SqlCapabilityStore.row?_revokeScope] at hr
  obtain ⟨old, hold, rfl⟩ := Option.map_eq_some_iff.mp hr
  have hscope := h old hold
  cases hrevoked : old.revoked <;> cases hconsumed : old.consumed <;>
    simp [hscope, hrevoked, hconsumed]

/-- An update that clears no mark keeps a row unusable. -/
theorem Unusable.update {f : TokenRow → TokenRow} {s' : SqlCapabilityStore} (h : Unusable K s)
    (hrow : s'.row? K = (s.row? K).map f)
    (hconsumed : ∀ r, r.consumed = true → (f r).consumed = true)
    (hrevoked : ∀ r, r.revoked = true → (f r).revoked = true) : Unusable K s' := by
  intro r hr
  rw [hrow] at hr
  obtain ⟨old, hold, rfl⟩ := Option.map_eq_some_iff.mp hr
  exact (h old hold).imp (hconsumed old) (hrevoked old)

/-- Only a record of the token makes it usable. -/
theorem Unusable.capHandler {o : Oracle} {v : CapWorld SqlCapabilityStore}
    (h : Unusable K v.store) {d : CapCall} (hd : ∀ entry, d ≠ .recordIssued K entry) :
    Unusable K (capHandler o d v).2.store := by
  cases d with
  | utcNow => exact h
  | uuid4 => exact h
  | isRevoked u => exact h
  | recordIssued u entry =>
    have hne : u ≠ K := by
      rintro rfl
      exact hd entry rfl
    intro r hr
    have hrow : (v.store.recordIssued u entry).row? K = some r := hr
    rw [SqlCapabilityStore.row?_recordIssued, if_neg hne] at hrow
    exact h r hrow
  | tryConsume u =>
    refine h.update (SqlCapabilityStore.row?_tryConsume v.store u K) (fun r hr => ?_) fun r hr => ?_
    · split
      · rfl
      · exact hr
    · split <;> exact hr
  | revoke u =>
    refine h.update (SqlCapabilityStore.row?_revoke v.store u K) (fun r hr => ?_) fun r hr => ?_
    · split <;> exact hr
    · split
      · rfl
      · exact hr
  | revokeScope a w c =>
    refine h.update (SqlCapabilityStore.row?_revokeScope v.store a w c K) (fun r hr => ?_)
      fun r hr => ?_
    · split <;> exact hr
    · split
      · rfl
      · exact hr
  | purgeExpired now =>
    intro r hr
    have hrow : (v.store.purgeExpired now).2.row? K = some r := hr
    rw [SqlCapabilityStore.row?_purgeExpired, Option.filter_eq_some_iff] at hrow
    exact h r hrow.1

end

/-! ## Rules that are found and rules that are written -/

/-- A rule that a proposal has found, or one that was written. -/
inductive RuleAccess where
  | found (thread : Nat) (rule : DelegationRule)
  | wrote (thread : Nat) (rule : DelegationRule)

def ruleAccess? : Entry Res → Option RuleAccess
  | ⟨k, .matchingRule _, .ok (some rule)⟩ => some (.found k rule)
  | ⟨i, .addRule rule, _⟩ => some (.wrote i rule)
  | _ => none

/-- The accesses to rules, in order. -/
def ruleAccesses (log : List (Entry Res)) : List RuleAccess := log.filterMap ruleAccess?

theorem ruleAccesses_append (log later : List (Entry Res)) :
    ruleAccesses (log ++ later) = ruleAccesses log ++ ruleAccesses later := List.filterMap_append

theorem found_mem_ruleAccesses {log : List (Entry Res)} {k : Nat} {rule : DelegationRule}
    (h : .found k rule ∈ ruleAccesses log) :
    ∃ e, ⟨k, .matchingRule e, .ok (some rule)⟩ ∈ log := by
  obtain ⟨x, hx, haccess⟩ := List.mem_filterMap.mp h
  unfold ruleAccess? at haccess
  split at haccess <;> cases haccess
  exact ⟨_, hx⟩

theorem wrote_mem_ruleAccesses {log : List (Entry Res)} {i : Nat} {rule : DelegationRule}
    (h : .wrote i rule ∈ ruleAccesses log) : ⟨i, .addRule rule, ()⟩ ∈ log := by
  obtain ⟨x, hx, haccess⟩ := List.mem_filterMap.mp h
  unfold ruleAccess? at haccess
  split at haccess <;> cases haccess
  exact hx

/-- The proposal `k` has found the rule, and `i` has taken it out of force since. -/
def ClosedSince (log : List (Entry Res)) (k i : Nat) (rule : DelegationRule) : Prop :=
  ∃ closed, closed.ruleId = rule.ruleId ∧ closed.active = false ∧
    [.found k rule, .wrote i closed].Sublist (ruleAccesses log)

/-- What `i` has written it wrote before it stopped writing rules. -/
theorem ClosedSince.of_append {log later : List (Entry Res)} {k i : Nat} {rule : DelegationRule}
    (h : ClosedSince (log ++ later) k i rule) (hlater : ∀ r, ⟨i, .addRule r, ()⟩ ∉ later) :
    ClosedSince log k i rule := by
  obtain ⟨closed, hid, hactive, hsub⟩ := h
  refine ⟨closed, hid, hactive, ?_⟩
  rw [ruleAccesses_append] at hsub
  obtain ⟨front, back, heq, hfront, hback⟩ := List.sublist_append_iff.mp hsub
  rcases List.eq_nil_or_concat back with rfl | ⟨init, x, rfl⟩
  · rwa [heq, List.append_nil]
  · -- the write would be among the later accesses
    rw [List.concat_eq_append, ← List.append_assoc,
      show ([.found k rule, .wrote i closed] : List RuleAccess) =
        [.found k rule] ++ [.wrote i closed] from rfl] at heq
    obtain ⟨_, hx⟩ := List.append_inj' heq rfl
    have hmem : RuleAccess.wrote i closed ∈ ruleAccesses later := by
      apply hback.subset
      rw [List.concat_eq_append, ← hx]
      simp
    exact absurd (wrote_mem_ruleAccesses hmem) (hlater closed)

/-! ## Runs -/

section

variable {P : Primitives} {F : Type} [Arithmetic F] {cp : ControlPlane P F} {o : Oracle}
variable {S C L : Type} [Store S] [CapabilityStateStore C] [AuditLog L]
variable {G : CpPool F S C L → Move (Nat × Command) → Prop} {w₀ : World S C L}
variable {q : CpPool F S C L}

/-- The request is an incident. -/
def IsIncident (q : CpPool F S C L) (i : Nat) : Prop :=
  ∃ r, request? q i = some r ∧ (incidentScope? r.2).isSome = true

/-- An incident has taken the rule out of force that the proposal `k` has found, and has
revoked the tokens of the scope. -/
def Overtaken (q : CpPool F S C L) (k : Nat) : Prop :=
  ∃ i rule n, IsIncident q i ∧ ClosedSince q.log k i rule ∧
    ⟨i, .cap (.revokeScope rule.agentId rule.workflowId rule.authorityClass.value), n⟩ ∈ q.log

/-- No proposal that is overtaken puts its token on record. -/
def InTime (q : CpPool F S C L) : Move (Nat × Command) → Prop
  | .start _ => True
  | .advance k => ∀ c, nextCall? q k = some c → c.recordsToken → ¬ Overtaken q k

/-- The incident `i` of the scope has returned. -/
def IncidentOver (q : CpPool F S C L) (i : Nat) (a w : String) (c : AuthorityClass) : Prop :=
  ∃ replica reason actorId report, q.threads[i]? = some
    ⟨(replica, .recordIncident a w c reason actorId), .done (.incident report)⟩

/-- The proposal `k` was answered with the token. -/
def GrantedIn (q : CpPool F S C L) (k : Nat) (t : CapabilityToken) : Prop :=
  ∃ replica e packet, q.threads[k]? = some
    ⟨(replica, .proposeEvent e), .done (.packet packet)⟩ ∧ packet.token = some t

/-- The verification `j` was answered that the token is good. -/
def AcceptedIn (q : CpPool F S C L) (j : Nat) (t : CapabilityToken) : Prop :=
  ∃ replica action r, q.threads[j]? = some
    ⟨(replica, .verifyForAction t action), .done (.verified r)⟩ ∧ r.ok = true

/-- A rule that was found is of the scope of the proposal. -/
theorem scope_of_found [LawfulStore S] (hq : (cp.system o).Leads G (fresh w₀) q) {k : Nat}
    {e : WorkflowEvent} {rule : DelegationRule}
    (h : ⟨k, .matchingRule e, .ok (some rule)⟩ ∈ q.log) :
    rule.agentId = e.agentId ∧ rule.workflowId = e.workflowId ∧
      rule.authorityClass = e.authorityRequested := by
  refine hq.log_induction (I := fun _ log =>
    ⟨k, .matchingRule e, .ok (some rule)⟩ ∈ log → rule.agentId = e.agentId ∧
      rule.workflowId = e.workflowId ∧ rule.authorityClass = e.authorityRequested)
    (fun u i r op next _ _ _ _ hI hmem => ?_) (fun h => nomatch h) h
  rcases List.mem_append.mp hmem with hold | hnew
  · exact hI hold
  · have heq := List.mem_singleton.mp hnew
    simp only [Entry.mk.injEq] at heq
    obtain ⟨rfl, rfl, hanswer⟩ := heq
    have hfound : matchingRule e u.state.store = .ok (some rule) := (eq_of_heq hanswer).symm
    obtain ⟨_, hworkflow, hagent, hclass⟩ :=
      DelegationRule.scope_of_matchesEvent (matchingRule_some e _ _ hfound).2
    exact ⟨hagent, hworkflow, hclass⟩

end

section

variable {P : Primitives} {F : Type} [Arithmetic F] {cp : ControlPlane P F} {o : Oracle}
variable {S L : Type} [Store S] [AuditLog L]
variable {G : CpPool F S SqlCapabilityStore L → Move (Nat × Command) → Prop}
variable {w₀ : World S SqlCapabilityStore L}
variable {p q u : CpPool F S SqlCapabilityStore L}

theorem Unusable.worldHandler {K : String} {w : World S SqlCapabilityStore L}
    (h : Unusable K w.capability) {op : Call} (hop : ∀ entry, op ≠ .cap (.recordIssued K entry))
    (keys : KeyPair P) (replica : Nat) :
    Unusable K (worldHandler o keys replica op w).2.capability := by
  by_cases hcap : ∃ d, op = .cap d
  · obtain ⟨d, rfl⟩ := hcap
    have hview : Unusable K (capView w).store := h
    exact hview.capHandler fun entry hd => hop entry (by rw [hd])
  · have hsame : (EarnedAutonomy.worldHandler o keys replica op w).2.capability = w.capability :=
      (capView_worldHandler (fun d hd => hcap ⟨d, hd⟩) w).1
    rwa [hsame]

/-- The row of a token holds what was put on record for it. -/
theorem entry_of_row (hfresh : o.Fresh)
    (hu : (cp.system o).Leads G (fresh (World.initial S SqlCapabilityStore L)) u)
    (hq : (cp.system o).Leads G u q) {k : Nat} {K : String}
    {entry : IssuedEntry} (hrecord : ⟨k, .cap (.recordIssued K entry), ()⟩ ∈ q.log)
    {r : TokenRow} (hr : u.state.capability.row? K = some r) : r.entry = entry := by
  have hissued : issued? (capView u.state).store K = some r.entry := by
    show (u.state.capability.row? K).map TokenRow.entry = _
    rw [hr]
    rfl
  obtain ⟨l, hl⟩ := (system_history hu).exists_record
    (fun _ => LawfulCapabilityStore.issued?_empty _) hissued
  obtain ⟨later, hlog⟩ := hq.log_grows
  have hbefore : ⟨l, .cap (.recordIssued K r.entry), ()⟩ ∈ q.log := by
    rw [hlog]
    exact List.mem_append_left _ (mem_capLog.mp hl)
  exact (eq_of_records (hu.trans hq) hfresh hbefore hrecord).2

omit [Store S] [AuditLog L] in
/-- An incident that has revoked the tokens writes no rule any more. -/
theorem not_addRule_after_revokeScope {a w : String} {c : AuthorityClass} {reason : PyStr}
    {actorId : String} {front back : List ((d : Call) × Res d)} {report : IncidentReport}
    (h : Follows (recordIncident F a w c reason actorId) (front ++ back) (.done report))
    {a' w' c' : String} {n : Nat} (hrevoked : ⟨.cap (.revokeScope a' w' c'), n⟩ ∈ front)
    (rule : DelegationRule) : ⟨.addRule rule, ()⟩ ∉ back := by
  obtain ⟨init, m, r, heq, hinit, _⟩ := follows_recordIncident_done h
  rcases List.append_eq_append_iff.mp heq with ⟨rest, rfl, _⟩ | ⟨rest, rfl, htail⟩
  · -- the revocation is not among the first calls
    exact absurd (hinit _ (List.mem_append_left _ hrevoked)) Bool.false_ne_true
  · cases rest with
    | nil =>
      rw [List.append_nil] at hrevoked
      exact absurd (hinit _ hrevoked) Bool.false_ne_true
    | cons x rest =>
      intro hmem
      have hlast : ⟨.addRule rule, ()⟩ ∈ [(⟨.append "incident.recorded" (report.toDict F)
          (some actorId), .ok r⟩ : (d : Call) × Res d)] := by
        rw [(List.cons.inj htail).2]
        exact List.mem_append_right _ hmem
      cases List.mem_singleton.mp hlast

/-- The token of a rule that an incident has taken out of force cannot be consumed once the
incident has revoked the tokens of the scope. -/
theorem unusable_of_leads (hfresh : o.Fresh)
    (hu : (cp.system o).Leads InTime (fresh (World.initial S SqlCapabilityStore L)) u)
    (hq : (cp.system o).Leads InTime u q) {i k : Nat} {replica : Nat} {reason : PyStr}
    {actorId : String} {report : IncidentReport} {rule : DelegationRule}
    (hincident : q.threads[i]? = some ⟨(replica, .recordIncident rule.agentId rule.workflowId
      rule.authorityClass reason actorId), .done (.incident report)⟩)
    (hclosed : ClosedSince q.log k i rule) {K : String} {entry : IssuedEntry}
    (hrecord : ⟨k, .cap (.recordIssued K entry), ()⟩ ∈ q.log)
    (hscope : entry.inScope rule.agentId rule.workflowId rule.authorityClass.value = true)
    {n : Nat} (hrevoked : ⟨i, .cap (.revokeScope rule.agentId rule.workflowId
      rule.authorityClass.value), n⟩ ∈ u.log) : Unusable K u.state.capability := by
  refine hu.log_induction (I := fun s log => (∃ n, ⟨i, .cap (.revokeScope rule.agentId
      rule.workflowId rule.authorityClass.value), n⟩ ∈ log) → Unusable K s.capability)
    (fun v j r op next hv hvu hj hG hI => ?_) (fun ⟨_, h⟩ => nomatch h) ⟨n, hrevoked⟩
  rintro ⟨m, hmem⟩
  have hvq : (cp.system o).Leads InTime v q := ((Leads.move .refl hG).trans hvu).trans hq
  rcases List.mem_append.mp hmem with hold | hnew
  · by_cases hrecords : ∃ e, op = .cap (.recordIssued K e)
    · -- the proposal would be overtaken
      obtain ⟨e, rfl⟩ := hrecords
      exfalso
      have hjk : j = k := by
        obtain ⟨later, hlog⟩ := (hvu.trans hq).log_grows
        have hnow : ⟨j, .cap (.recordIssued K e), ()⟩ ∈ q.log := by
          rw [hlog]
          simp [Service.move, hj]
        exact (eq_of_records (hu.trans hq) hfresh hnow hrecord).1
      subst hjk
      refine hG _ (nextCall?_eq_some_iff.mpr ⟨r, next, hj⟩) trivial ⟨i, rule, m, ?_, ?_, hold⟩
      · obtain ⟨t, ht⟩ := hv.exists_thread hold
        obtain ⟨t', ht', hreq⟩ := hvq.getElem? ht
        rw [hincident] at ht'
        cases ht'
        exact ⟨t.request, request?_eq_some_iff.mpr ⟨_, ht⟩, by rw [← hreq]; rfl⟩
      · obtain ⟨later, hlog⟩ := hvq.log_grows
        rw [hlog] at hclosed
        refine hclosed.of_append fun written hwritten => ?_
        have hfollows := (hv.trans hvq).follows hincident
        rw [hlog, calls_append] at hfollows
        obtain ⟨report', hreport, _⟩ := Follows.of_map_done
          (p := recordIncident F rule.agentId rule.workflowId rule.authorityClass reason actorId)
          hfollows
        exact not_addRule_after_revokeScope hreport (mem_calls_iff.mpr hold) written
          (mem_calls_iff.mpr hwritten)
    · exact (hI ⟨m, hold⟩).worldHandler (fun e he => hrecords ⟨e, he⟩) cp.ledgerKeys r.1
  · have hop : op = .cap (.revokeScope rule.agentId rule.workflowId
        rule.authorityClass.value) := by
      cases List.mem_singleton.mp hnew
      rfl
    subst hop
    exact unusable_revokeScope fun row hrow => by
      rw [entry_of_row hfresh hv hvq hrecord hrow]
      exact hscope

/-! ### Verifications -/

/-- A verification that accepts a single-use token has consumed it, as its last call. -/
theorem AcceptedIn.calls_eq (hq : (cp.system o).Leads G (fresh w₀) q) {j : Nat}
    {t : CapabilityToken} (h : AcceptedIn q j t) (hsingle : t.singleUse = true) :
    ∃ now, calls q.log j = [⟨.cap (.isRevoked t.tokenId), false⟩, ⟨.cap .utcNow, now⟩,
      ⟨.cap (.tryConsume t.tokenId), true⟩] := by
  obtain ⟨n, action, r, hj, hok⟩ := h
  obtain ⟨r', hr', heq⟩ := Follows.of_map_done
    (p := liftCap (cp.capabilityService.verifyForAction t action)) (hq.follows hj)
  obtain rfl : r = r' := by simpa using heq
  obtain ⟨cs, hcalls, hcs⟩ := follows_liftCap_done hr'
  obtain ⟨_, _, _, now, _, _, rfl⟩ := follows_verifyForAction_ok hcs hok
  refine ⟨now, ?_⟩
  rw [hcalls, if_pos hsingle]
  rfl

/-- A verification that has made its last call is over. -/
theorem AcceptedIn.of_consumed (hp : (cp.system o).Leads G (fresh w₀) p)
    (hq : (cp.system o).Leads G p q) {j : Nat} {t : CapabilityToken} (h : AcceptedIn q j t)
    (hsingle : t.singleUse = true) (hconsumed : ⟨j, .cap (.tryConsume t.tokenId), true⟩ ∈ p.log) :
    AcceptedIn p j t := by
  obtain ⟨now, hcalls⟩ := h.calls_eq (hp.trans hq) hsingle
  obtain ⟨n, action, r, hj, hok⟩ := h
  obtain ⟨thread, hthread⟩ := hp.exists_thread hconsumed
  obtain ⟨thread', hthread', hreq⟩ := hq.getElem? hthread
  rw [hj] at hthread'
  cases hthread'
  obtain ⟨request, body⟩ := thread
  obtain rfl : (n, Command.verifyForAction t action) = request := hreq
  -- it has made as many calls as it will ever make
  have hsame : calls p.log j = calls q.log j := by
    obtain ⟨rest, hrest⟩ := hq.calls_prefix j
    have hmem := mem_calls_iff.mpr hconsumed
    rw [← hrest] at hcalls
    rcases List.eq_nil_or_concat rest with rfl | ⟨init, x, rfl⟩
    · rw [← hrest, List.append_nil]
    · rw [List.concat_eq_append, ← List.append_assoc,
        show [⟨Call.cap (.isRevoked t.tokenId), false⟩, ⟨Call.cap .utcNow, now⟩,
          ⟨Call.cap (.tryConsume t.tokenId), true⟩] = [⟨Call.cap (.isRevoked t.tokenId), false⟩,
          ⟨Call.cap .utcNow, now⟩] ++ [(⟨Call.cap (.tryConsume t.tokenId), true⟩ :
            (c : Call) × Res c)] from rfl] at hcalls
      obtain ⟨hfront, _⟩ := List.append_inj' hcalls rfl
      have hearly : ⟨.cap (.tryConsume t.tokenId), true⟩ ∈
          [⟨Call.cap (.isRevoked t.tokenId), false⟩,
            (⟨Call.cap .utcNow, now⟩ : (c : Call) × Res c)] := by
        rw [← hfront]
        exact List.mem_append_left _ hmem
      simp at hearly
  have hbody : body = .done (.verified r) := by
    have hfollows := hp.follows hthread
    rw [hsame] at hfollows
    exact hfollows.unique ((hp.trans hq).follows hj)
  subst hbody
  exact ⟨n, action, r, hthread, hok⟩

/-! ## The result -/

/-- The token of a proposal is put on record with the scope of its event and can be used
once.  Its rule was looked for once, for that event. -/
theorem GrantedIn.record (hq : (cp.system o).Leads G (fresh w₀) q) {k : Nat}
    {t : CapabilityToken} (h : GrantedIn q k t) :
    ∃ e, ⟨k, .cap (.recordIssued t.tokenId (entryOf t)), ()⟩ ∈ q.log ∧ t.singleUse = true ∧
      t.agentId = e.agentId ∧ t.workflowId = e.workflowId ∧
      t.authorityClass = e.authorityRequested ∧
      ∀ e' found, ⟨k, .matchingRule e', found⟩ ∈ q.log → e' = e := by
  obtain ⟨replica, e, packet, hk, ht⟩ := h
  obtain ⟨packet', hpacket, heq⟩ := Follows.of_map_done (p := cp.proposeEvent e) (hq.follows hk)
  obtain rfl : packet = packet' := by simpa using heq
  obtain ⟨front, minted, r, hauth, hassessed, hgranted, hcalls⟩ :=
    follows_proposeEvent_done hpacket
  rcases hgranted with ⟨_, hnone, _⟩ | ⟨_, u, hu, hmint⟩
  · rw [hnone] at ht
    cases ht
  · obtain rfl : u = t := Option.some.inj (hu.symm.trans ht)
    obtain ⟨_, _, _, _, _, _, _, hunsigned, rfl⟩ := follows_mint_done hmint
    refine ⟨e, mem_calls_iff.mp ?_, ?_, ?_, ?_, ?_, fun e' found hfound => ?_⟩
    · rw [hcalls]
      simp [capCalls]
    · rw [hunsigned]
      rfl
    · rw [hunsigned]
      show packet.event.agentId = _
      rw [hassessed.event]
      rfl
    · rw [hunsigned]
      show packet.event.workflowId = _
      rw [hassessed.event]
      rfl
    · rw [hunsigned]
      show packet.event.authorityRequested = _
      rw [hassessed.event]
      rfl
    · have hmem := mem_calls_iff.mpr hfound
      rw [hcalls] at hmem
      obtain ⟨_, _, rfl | ⟨_, _, _, rfl⟩⟩ := follows_authenticate_done hauth
      · simp [readingCalls, capCalls, recordingCalls] at hmem
        exact hmem.1
      · simp [readingCalls, capCalls, recordingCalls] at hmem
        exact hmem.1

/-- Once an incident has returned, no further verification accepts a token that was granted
under a rule that the incident has taken out of force, in any interleaving in which no
proposal records its token after it was overtaken. -/
theorem incident_beats_proposals [LawfulStore S] (hfresh : o.Fresh)
    (hp : (cp.system o).Leads InTime (fresh (World.initial S SqlCapabilityStore L)) p)
    {i : Nat} {rule : DelegationRule}
    (hover : IncidentOver p i rule.agentId rule.workflowId rule.authorityClass)
    (hq : (cp.system o).Leads InTime p q) {k : Nat} {t : CapabilityToken}
    (hgranted : GrantedIn q k t) (hclosed : ClosedSince q.log k i rule) {j : Nat}
    (haccepts : AcceptedIn q j t) : AcceptedIn p j t := by
  obtain ⟨e, hrecord, hsingle, htagent, htworkflow, htclass, honce⟩ :=
    hgranted.record (hp.trans hq)
  have hscope : (entryOf t).inScope rule.agentId rule.workflowId rule.authorityClass.value =
      true := by
    obtain ⟨_, _, _, hsub⟩ := hclosed
    obtain ⟨e', hfound⟩ := found_mem_ruleAccesses (hsub.subset List.mem_cons_self)
    obtain rfl := honce e' _ hfound
    obtain ⟨hagent, hworkflow, hclass⟩ := scope_of_found (hp.trans hq) hfound
    rw [hagent, hworkflow, hclass, ← htagent, ← htworkflow, ← htclass]
    exact IssuedEntry.inScope_self (entryOf t)
  obtain ⟨replica, reason, actorId, report, hincident⟩ := hover
  -- the incident has revoked before it returned
  obtain ⟨n, hrevoked⟩ : ∃ n, ⟨i, .cap (.revokeScope rule.agentId rule.workflowId
      rule.authorityClass.value), n⟩ ∈ p.log := by
    obtain ⟨report', hreport, _⟩ := Follows.of_map_done (p := recordIncident F rule.agentId
      rule.workflowId rule.authorityClass reason actorId) (hp.follows hincident)
    obtain ⟨front, n, r, hcalls, _⟩ := follows_recordIncident_done hreport
    refine ⟨n, mem_calls_iff.mp ?_⟩
    rw [hcalls]
    simp
  have hreturned := hq.getElem?_of_done hincident
  -- so no consumption succeeds from then on
  have hconsumed : ⟨j, .cap (.tryConsume t.tokenId), true⟩ ∈ q.log →
      ⟨j, .cap (.tryConsume t.tokenId), true⟩ ∈ p.log := by
    refine hq.log_induction (I := fun _ log => ⟨j, .cap (.tryConsume t.tokenId), true⟩ ∈ log →
      ⟨j, .cap (.tryConsume t.tokenId), true⟩ ∈ p.log)
      (fun u l r op next hu hrest _ hG hI hmem => ?_) id
    rcases List.mem_append.mp hmem with hold | hnew
    · exact hI hold
    · have huq : (cp.system o).Leads InTime u q := (Leads.move .refl hG).trans hrest
      have hunusable : Unusable t.tokenId u.state.capability := by
        obtain ⟨later, hlog⟩ := hu.log_grows
        refine unusable_of_leads hfresh (hp.trans hu) huq hreturned hclosed hrecord hscope
          (n := n) ?_
        rw [hlog]
        exact List.mem_append_left _ hrevoked
      have heq := List.mem_singleton.mp hnew
      simp only [Entry.mk.injEq] at heq
      obtain ⟨rfl, rfl, hanswer⟩ := heq
      have htrue : (u.state.capability.tryConsume t.tokenId).1 = true := (eq_of_heq hanswer).symm
      rw [hunusable.tryConsume] at htrue
      cases htrue
  obtain ⟨now, hcalls⟩ := haccepts.calls_eq (hp.trans hq) hsingle
  refine haccepts.of_consumed hp hq hsingle (hconsumed (mem_calls_iff.mp ?_))
  rw [hcalls]
  simp

end

/-! ### A proposal and an incident that cross -/

abbrev DemoPool := CpPool Dyadic SqlStore SqlCapabilityStore SqlAuditLedger

def emptyPool : DemoPool := fresh (World.initial _ _ _)

/-- Moves of one request. -/
def advances (i n : Nat) : List (Move (Nat × Command)) := List.replicate n (.advance i)

/-- A rule is approved, a proposal finds it and is permitted, and the other replica begins to
record an incident. -/
def crossingMoves : List (Move (Nat × Command)) :=
  .start (0, .registerAgent demoAgent) :: advances 0 2 ++
  .start (0, .approveDelegationRule (demoRule .modifyInternalRecord .executeWithSampling)
    "approver" none) :: advances 1 3 ++
  .start proposalDemo :: advances 2 5 ++ [.start (1, incidentAfterwards.2)]

/-- The incident returns before the proposal mints. -/
def overtakenPool : DemoPool := demoSystem.schedule emptyPool (crossingMoves ++ advances 3 9)

def overtakenMint : DemoPool := demoSystem.schedule overtakenPool (advances 2 6)

/-- The proposal mints before the incident revokes. -/
def promptPool : DemoPool :=
  demoSystem.schedule emptyPool (crossingMoves ++ advances 3 7 ++ advances 2 6 ++ advances 3 2)

/-- The token is presented. -/
def presentMoves (t : CapabilityToken) : List (Move (Nat × Command)) :=
  .start (0, .verifyForAction t demoAction) :: advances 4 3

/-- What the proposal `k` was answered with. -/
def grantIn (q : DemoPool) (k : Nat) : Option CapabilityToken :=
  match q.threads[k]? with
  | some ⟨(_, .proposeEvent _), .done (.packet packet)⟩ => packet.token
  | _ => none

theorem grantedIn_of_grantIn {q : DemoPool} {k : Nat} {t : CapabilityToken}
    (h : grantIn q k = some t) : GrantedIn q k t := by
  unfold grantIn at h
  split at h
  · rename_i hk
    exact ⟨_, _, _, hk, h⟩
  · cases h

/-- The scope of an incident that has returned. -/
def overIn (q : DemoPool) (i : Nat) : Option (String × String × AuthorityClass) :=
  match q.threads[i]? with
  | some ⟨(_, .recordIncident a w c _ _), .done (.incident _)⟩ => some (a, w, c)
  | _ => none

theorem incidentOver_of_overIn {q : DemoPool} {i : Nat} {a w : String} {c : AuthorityClass}
    (h : overIn q i = some (a, w, c)) : IncidentOver q i a w c := by
  unfold overIn at h
  split at h
  · rename_i hi
    cases h
    exact ⟨_, _, _, _, hi⟩
  · cases h

/-- The rule that the proposal 2 has found and the incident 3 has closed. -/
def closedIn (q : DemoPool) : Option DelegationRule :=
  match ruleAccesses q.log with
  | [.wrote 1 _, .found 2 rule, .wrote 3 closed] =>
      if closed.ruleId = rule.ruleId ∧ closed.active = false then some rule else none
  | _ => none

theorem closedSince_of_closedIn {q : DemoPool} {rule : DelegationRule}
    (h : closedIn q = some rule) : ClosedSince q.log 2 3 rule := by
  unfold closedIn at h
  split at h
  · rename_i hlog
    split at h
    · rename_i hclosed
      cases h
      refine ⟨_, hclosed.1, hclosed.2, ?_⟩
      rw [hlog]
      exact List.sublist_cons_self _ _
    · cases h
  · cases h

/-- The request `j` was answered that a token is good. -/
def goodIn (q : DemoPool) (j : Nat) : Bool :=
  match q.threads[j]? with
  | some ⟨_, .done (.verified r)⟩ => r.ok
  | _ => false

theorem acceptedIn_of_goodIn {q : DemoPool} {j n : Nat} {t : CapabilityToken}
    {action : CapabilityService.Action}
    (hrequest : request? q j = some (n, .verifyForAction t action)) (h : goodIn q j = true) :
    AcceptedIn q j t := by
  obtain ⟨body, hj⟩ := request?_eq_some_iff.mp hrequest
  unfold goodIn at h
  rw [hj] at h
  split at h
  · rename_i heq
    cases heq
    exact ⟨_, _, _, hj, h⟩
  · cases h

theorem request?_advances (i j n : Nat) (q : DemoPool) :
    request? (demoSystem.schedule q (advances i n)) j = request? q j := by
  induction n generalizing q with
  | zero => rfl
  | succ n ih => exact (ih _).trans (request?_advance q j i)

theorem request?_present {q : DemoPool} (t : CapabilityToken) (h : q.threads.length = 4) :
    request? (demoSystem.schedule q (presentMoves t)) 4 =
      some (0, .verifyForAction t demoAction) := by
  refine (request?_advances 4 4 3 _).trans ?_
  simp [request?, Service.move, ← h]

/-- The mint lands after the revocation, and the token is accepted. -/
theorem mint_after_revocation :
    demoSystem.Leads Unguarded emptyPool overtakenPool ∧ ∃ rule t,
      IncidentOver overtakenPool 3 rule.agentId rule.workflowId rule.authorityClass ∧
      let q := demoSystem.schedule overtakenMint (presentMoves t)
      demoSystem.Leads Unguarded overtakenPool q ∧ GrantedIn q 2 t ∧
        ClosedSince q.log 2 3 rule ∧ AcceptedIn q 4 t ∧ ¬ AcceptedIn overtakenPool 4 t := by
  obtain ⟨hlength, hlate, hgranted⟩ : overtakenMint.threads.length = 4 ∧
      overtakenPool.threads.length = 4 ∧ (grantIn overtakenMint 2).any (fun t =>
        let q := demoSystem.schedule overtakenMint (presentMoves t)
        goodIn q 4 && (closedIn q).any fun rule => overIn overtakenPool 3 =
          some (rule.agentId, rule.workflowId, rule.authorityClass)) = true := by
    decide +kernel
  obtain ⟨t, ht, hchecks⟩ := (Option.any_eq_true _ _).mp hgranted
  obtain ⟨hgood, hchecks⟩ := Bool.and_eq_true_iff.mp hchecks
  obtain ⟨rule, hrule, hover⟩ := (Option.any_eq_true _ _).mp hchecks
  have hmint : demoSystem.Leads Unguarded overtakenPool overtakenMint := leads_unguarded _ _
  have hpresent : demoSystem.Leads Unguarded overtakenMint
      (demoSystem.schedule overtakenMint (presentMoves t)) := leads_unguarded _ _
  refine ⟨leads_unguarded _ _, rule, t, incidentOver_of_overIn (of_decide_eq_true hover),
    hmint.trans hpresent, ?_, closedSince_of_closedIn hrule,
    acceptedIn_of_goodIn (request?_present t hlength) hgood, ?_⟩
  · obtain ⟨n, e, packet, hk, htoken⟩ := grantedIn_of_grantIn ht
    exact ⟨n, e, packet, hpresent.getElem?_of_done hk, htoken⟩
  · rintro ⟨_, _, _, hfour, _⟩
    have hlt := (List.getElem?_eq_some_iff.mp hfour).1
    omega

/-- The call revokes the tokens of a scope. -/
def Call.revokesScope : Call → Bool
  | .cap (.revokeScope _ _ _) => true
  | _ => false

/-- No token is put on record after a revocation. -/
def mintsFirst (q : DemoPool) : Move (Nat × Command) → Bool
  | .start _ => true
  | .advance k => !(nextCall? q k).any (fun c => decide c.recordsToken) ||
      q.log.all fun x => !x.op.revokesScope

theorem inTime_of_mintsFirst {q : DemoPool} {m : Move (Nat × Command)}
    (h : mintsFirst q m = true) : InTime q m := by
  cases m with
  | start r => trivial
  | advance k =>
    rintro c hc hrecords ⟨i, rule, n, _, _, hrevoked⟩
    simp only [mintsFirst, hc, Option.any_some, decide_eq_true hrecords, Bool.not_true,
      Bool.false_or, List.all_eq_true] at h
    cases h _ hrevoked

theorem leads_of_mintsFirst {q : DemoPool} {moves : List (Move (Nat × Command))}
    (h : Permits demoSystem (fun q m => mintsFirst q m = true) q moves) :
    demoSystem.Leads InTime q (demoSystem.schedule q moves) :=
  (leads_schedule h).mono fun _ _ => inTime_of_mintsFirst

/-- The mint lands before the revocation, and the token is refused. -/
theorem prompt_mint_is_refused :
    ∃ t, grantIn promptPool 2 = some t ∧
      ∀ j, ¬ AcceptedIn (demoSystem.schedule promptPool (presentMoves t)) j t := by
  obtain ⟨hmoves, hnone, hgranted⟩ :
      Permits demoSystem (fun q m => mintsFirst q m = true) emptyPool
        (crossingMoves ++ advances 3 7 ++ advances 2 6 ++ advances 3 2) ∧
      (List.range promptPool.threads.length).all (fun j => !goodIn promptPool j) = true ∧
      (grantIn promptPool 2).any (fun t =>
        decide (Permits demoSystem (fun q m => mintsFirst q m = true) promptPool
          (presentMoves t)) &&
        (closedIn (demoSystem.schedule promptPool (presentMoves t))).any fun rule =>
          overIn promptPool 3 =
            some (rule.agentId, rule.workflowId, rule.authorityClass)) = true := by
    decide +kernel
  obtain ⟨t, ht, hchecks⟩ := (Option.any_eq_true _ _).mp hgranted
  obtain ⟨hpresent, hchecks⟩ := Bool.and_eq_true_iff.mp hchecks
  obtain ⟨rule, hrule, hover⟩ := (Option.any_eq_true _ _).mp hchecks
  have hp : demoSystem.Leads InTime (fresh (World.initial _ _ _)) promptPool :=
    leads_of_mintsFirst hmoves
  have hq := leads_of_mintsFirst (of_decide_eq_true hpresent)
  refine ⟨t, ht, fun j haccepts => ?_⟩
  obtain ⟨n, e, packet, hk, htoken⟩ := grantedIn_of_grantIn ht
  obtain ⟨_, _, r, hj, hok⟩ := incident_beats_proposals (demoOracle_fresh _) hp
    (incidentOver_of_overIn (of_decide_eq_true hover)) hq
    ⟨n, e, packet, hq.getElem?_of_done hk, htoken⟩ (closedSince_of_closedIn hrule) haccepts
  -- no verification was under way when the incident returned
  have hlt := (List.getElem?_eq_some_iff.mp hj).1
  have hgood := List.all_eq_true.mp hnone j (List.mem_range.mpr hlt)
  simp [goodIn, hj, hok] at hgood

end EarnedAutonomy
