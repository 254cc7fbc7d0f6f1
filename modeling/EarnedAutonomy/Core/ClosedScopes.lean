import EarnedAutonomy.Core.Tightening
import EarnedAutonomy.Core.TrustRecords

/-!
# Closed scopes

What `record_incident` closes, and that it stays closed.

* `scopeClosed_of_incident`: no rule of the scope is active and the standing level is at most
  the approval rung.  `ScopeClosed.turn` keeps it so until a turn `Opens` the scope.
* `not_issues_of_scopeClosed`: no proposal to execute in a closed scope gets a token.
* `withdrawn_of_incident`: a token of the scope that was not consumed is revoked, or its
  expiry has passed (`Withdrawn`).  It stays so, and no verification accepts it.
* `incident_closes_every_path` puts the three together.
-/

namespace EarnedAutonomy

open Atomic Service Prog Calendar Store LawfulStore CapabilityStateStore CapabilityService
open ControlPlane hiding body

/-! ## The scope -/

section

variable {P : Primitives} {F : Type} [Arithmetic F] {cp : ControlPlane P F} {o : Oracle}
variable {S C L : Type} [Store S] [LawfulStore S] [CapabilityStateStore C] [AuditLog L]
variable {a w : String} {c : AuthorityClass} {x y : CpTurn F S C L}

/-- The turn approves a rule for the scope or registers the agent, and stores it. -/
def Opens (a w : String) (c : AuthorityClass) (y : CpTurn F S C L) : Prop :=
  Reopens a w c y.request.2 ∧ ∃ d ∈ y.calls, d.1.changesStore = true

/-- A scope stays closed through a turn that does not open it. -/
theorem ScopeClosed.turn (h : ScopeClosed (view y.before.store) a w c)
    (hserve : y = (cp.system o).serve y.before y.request)
    (hkeyed : (view y.before.store).Keyed) (hnot : ¬ Opens a w c y) :
    ScopeClosed (view y.after.store) a w c := by
  by_cases hreopens : Reopens a w c y.request.2
  · -- the command has raised before it stored anything
    have hcalls : ∀ d ∈ y.calls, d.1.changesStore = false := by
      intro d hd
      rw [← Bool.not_eq_true]
      exact fun hchanges => hnot ⟨hreopens, d, hd, hchanges⟩
    have hanswers : Answers ((cp.system o).handler y.request) y.before y.calls y.after := by
      rw [hserve]
      exact answers_serve _ _ _
    have hstore : y.after.store = y.before.store :=
      hanswers.invariant (I := fun s => s.store = y.before.store)
        (fun d hd s hs => (store_worldHandler (hcalls d hd) s).trans hs) rfl
    rwa [hstore]
  · have hkept := (storeSteps_of_serve hserve).invariant
      (I := fun u => u.Keyed ∧ ScopeClosed u a w c)
      (fun u u' hstep hu => ⟨hstep.keyed hu.1, hu.2.step hu.1 hstep hreopens⟩) ⟨hkeyed, h⟩
    exact hkept.2

omit [LawfulStore S] in
/-- The stored level of a registered agent is on the ladder where an incident returns. -/
theorem hasLevel_of_returns {reason : PyStr} {actorId : String}
    (hserve : x = (cp.system o).serve x.before x.request)
    (hreq : x.request.2 = .recordIncident a w c reason actorId) {report : IncidentReport}
    (hreturns : x.result = .ok (.incident report)) : HasLevel x.before.store a w c := by
  obtain ⟨before, ⟨replica, cmd⟩, calls, result, after⟩ := x
  obtain rfl : cmd = _ := hreq
  have hlevel : (recordIncident F a w c reason actorId).Ensures
      (worldHandler o cp.ledgerKeys replica) before
      fun r _ => (∃ report, r = .ok report) → HasLevel before.store a w c := by
    unfold recordIncident
    rw [perform_bind, ensures_call, perform_bind, ensures_call, ensures_bind]
    refine (ensures_downgrade_returns _).mono fun r s hr => ?_
    cases r with
    | error err => exact fun ⟨_, h⟩ => nomatch h
    | ok ids => exact fun _ => hr.mp ⟨ids, rfl⟩
  have hall := (cp.system o).of_ensures hserve
    (Q := fun r _ => (∃ report, r = .ok (.incident report)) → HasLevel before.store a w c) ?_
  · exact hall ⟨report, hreturns⟩
  · refine ensures_bind.mpr (hlevel.mono fun r s hr => ?_)
    cases r with
    | error err => exact fun ⟨_, h⟩ => nomatch h
    | ok report => exact fun _ => hr ⟨report, rfl⟩

variable [OrderedStore S]

/-- An incident that returns closes the scope of a registered agent, and lowers its level
to the approval rung. -/
theorem scopeClosed_of_incident {reason : PyStr} {actorId : String}
    (hserve : x = (cp.system o).serve x.before x.request)
    (hreq : x.request.2 = .recordIncident a w c reason actorId) {report : IncidentReport}
    (hreturns : x.result = .ok (.incident report)) (hkeyed : (view x.before.store).Keyed)
    (hrules : (view x.before.store).RulesKeyed) {agent : AgentIdentity}
    (hagent : getAgent a x.before.store = some agent) :
    RulesClosed (view x.after.store) a w c ∧ ∃ agent' current,
      getAgent a x.after.store = some agent' ∧ agent.autonomyFor w c = .ok current ∧
        agent'.autonomyFor w c = .ok (current.cappedAt .executeWithApproval) := by
  obtain ⟨current, hcurrent⟩ := hasLevel_of_returns hserve hreq hreturns agent hagent
  refine ⟨(rulesClosed_of_incident hserve hreq hrules).mpr
    (Or.inl ⟨agent, current, hagent, hcurrent⟩), ?_⟩
  have htightened := tightenedBy_of_serve hserve (by rw [hreq]; rfl) hkeyed hrules
  rw [hreq] at htightened
  have hleft := htightened.agents a
  rw [getAgent_eq] at hagent
  rw [hagent] at hleft
  simp only [getAgent_eq]
  generalize (view x.after.store).agents a = found at hleft ⊢
  cases hleft with
  | some hleft =>
    rename_i agent'
    refine ⟨agent', current, rfl, hcurrent, ?_⟩
    obtain ⟨e, rfl, rfl, rfl⟩ : ∃ e : WorkflowEvent, e.agentId = a ∧ e.workflowId = w ∧
        e.authorityRequested = c :=
      ⟨{ deletionNotice with agentId := a, workflowId := w, authorityRequested := c },
        rfl, rfl, rfl⟩
    rw [hleft.level e (hkeyed _ _ hagent).symm, hcurrent]
    simp [Except.map, Command.levelLeft]

end

/-! ## Proposals in a closed scope -/

section

variable {P : Primitives} {F : Type} [Arithmetic F] {cp : ControlPlane P F} {o : Oracle}
variable {S C L : Type} [Store S] [LawfulStore S] [CapabilityStateStore C] [AuditLog L]
variable {a w : String} {c : AuthorityClass} {y : CpTurn F S C L} {e : WorkflowEvent}

/-- The turn puts the token on record. -/
def Mints (y : CpTurn F S C L) (t : CapabilityToken) : Prop :=
  ⟨.cap (.recordIssued t.tokenId (entryOf t)), ()⟩ ∈ y.calls

omit [LawfulStore S] in
/-- The token that a packet hands out was put on record. -/
theorem Accepted.mints {p : Packet} (hacc : Accepted y e p)
    (hserve : y = (cp.system o).serve y.before y.request) {t : CapabilityToken}
    (ht : p.token = some t) : Mints y t := by
  have hfollows : Follows ((cp.system (S := S) (C := C) (L := L) o).body y.request) y.calls
      (ofExcept y.result) := by
    rw [hserve]
    exact follows_serve _ _ _
  have hp' := hacc.follows hfollows
  obtain ⟨before, ⟨replica, cmd⟩, calls, result, after⟩ := y
  obtain ⟨rfl, rfl⟩ := hacc
  obtain ⟨front, minted, r, _, _, hgranted, rfl⟩ := follows_proposeEvent_done hp'
  rcases hgranted with ⟨_, hnone, _⟩ | ⟨_, u, hu, hmint⟩
  · rw [hnone] at ht
    cases ht
  · obtain rfl : u = t := Option.some.inj (hu.symm.trans ht)
    obtain ⟨_, _, _, _, _, _, _, _, rfl⟩ := follows_mint_done hmint
    simp [Mints, capCalls]

/-- No rule and no level of a closed scope lets an execution proceed. -/
theorem not_issues_of_scopeClosed (hstrict : cp.policyEngine.Strict)
    (hclosed : ScopeClosed (view y.before.store) a w c)
    (hserve : y = (cp.system o).serve y.before y.request)
    (hreq : y.request.2 = .proposeEvent e) (hagent : e.agentId = a) (hworkflow : e.workflowId = w)
    (hclass : e.authorityRequested = c) (hexecutes : e.requiresExecution = true) :
    ¬ Issues y := by
  obtain ⟨before, ⟨replica, cmd⟩, calls, result, after⟩ := y
  obtain rfl : cmd = _ := hreq
  subst hagent hworkflow hclass
  rw [hserve, issues_iff]
  rintro ⟨w', p, ⟨hfound, _, _, hanswered⟩, hperm, _⟩
  obtain ⟨hrules, agent, current, hagent, hcurrent, hle⟩ := hclosed
  -- the agent of the proposal is the stored one
  rw [← getAgent_eq] at hagent
  unfold found at hfound
  rw [show getAgent e.agentId before.store = some agent from hagent] at hfound
  cases hfound
  obtain ⟨consequences, risk, reasons, level, rule?, d, _, hlevel, hrule, hdecision, hp⟩ :=
    assessment_eq_ok_iff.mp hanswered
  have hsame : level = current := by
    rw [hcurrent] at hlevel
    exact (Except.ok.inj hlevel).symm
  subst hsame
  have hnone : rule? = none := by
    cases rule? with
    | none => rfl
    | some r =>
      obtain ⟨hstored, hmatches⟩ := matchingRule_some e _ r hrule
      obtain ⟨hactive, hworkflow, hagent, hclass⟩ := DelegationRule.scope_of_matchesEvent hmatches
      have hinactive : r.active = false := by
        apply hrules _ r hstored
        simp [DelegationRule.inScope, hworkflow, hagent, hclass]
      rw [hactive] at hinactive
      cases hinactive
  subst hnone
  rw [hp] at hperm
  obtain ⟨_, _, hlets⟩ := (permissive_evaluate_iff hstrict).mp ⟨d, hdecision, hperm⟩
  rw [value_effectiveLevel] at hlets
  have happroval : AutonomyLevel.executeWithApproval.value <
      AutonomyLevel.executeWithSampling.value := by
    decide
  have hexecutes : (withApprovedWorkflows e p.agent).requiresExecution = true := hexecutes
  simp only [hexecutes, ruleLevelValue, Bool.true_eq_false, and_false, false_or] at hlets
  omega

end

/-! ## Tokens of the scope -/

/-- The call leaves the tokens on record, with their marks. -/
def Call.leavesTokens : Call → Bool
  | .cap .utcNow | .cap .uuid4 | .cap (.isRevoked _) => true
  | .cap _ => false
  | _ => true

theorem leavesTokens_of_plain {d : Call} (h : d.plain = true) : d.leavesTokens = true := by
  cases d with
  | cap op => cases op <;> first | rfl | cases h
  | _ => rfl

theorem follows_deactivateRules_done {reason : PyStr} {rules : List DelegationRule}
    {calls : List ((d : Call) × Res d)} {ids : List String}
    (h : Follows (deactivateRules reason rules) calls (.done ids)) {id : String} (hid : id ∈ ids) :
    ∃ rule, rule.ruleId = id ∧ ⟨.addRule rule, ()⟩ ∈ calls := by
  induction rules generalizing calls ids with
  | nil =>
    obtain ⟨rfl, heq⟩ := follows_done_iff.mp h
    cases heq
    cases hid
  | cons rule rest ih =>
    unfold deactivateRules at h
    split at h
    · rw [perform_bind, follows_call_done_iff] at h
      obtain ⟨u, others, rfl, hothers⟩ := h
      obtain ⟨ids', hrest, rfl⟩ := hothers.of_map_done
      rcases List.mem_cons.mp hid with rfl | hid
      · refine ⟨deactivated rule (PyStr.utf8 "auto-revoked by incident: " ++ reason), rfl, ?_⟩
        exact List.mem_cons_self
      · obtain ⟨r, hr, hmem⟩ := ih hrest hid
        exact ⟨r, hr, List.mem_cons_of_mem _ hmem⟩
    · exact ih h hid

theorem follows_downgrade_done {a w : String} {c : AuthorityClass} {reason : PyStr}
    {calls : List ((d : Call) × Res d)} {ids : List String}
    (h : Follows (downgrade a w c reason) calls (.done ids)) {id : String} (hid : id ∈ ids) :
    ∃ rule, rule.ruleId = id ∧ ⟨.addRule rule, ()⟩ ∈ calls := by
  unfold downgrade at h
  rw [perform_bind, follows_call_done_iff] at h
  obtain ⟨agent?, rest, rfl, h⟩ := h
  cases agent? with
  | none =>
    obtain ⟨rfl, heq⟩ := follows_done_iff.mp h
    cases heq
    cases hid
  | some agent =>
    simp only [perform_bind, follows_call_done_iff, follows_ofExcept_bind_done_iff] at h
    obtain ⟨_, _, rfl, _, _, _, _, rfl, rules, _, rfl, h⟩ := h
    obtain ⟨rule, hrule, hmem⟩ := follows_deactivateRules_done h hid
    exact ⟨rule, hrule, by simp [hmem]⟩

/-- The calls of an incident that returned: it writes the rules that it reports, and then
revokes the tokens of the scope. -/
theorem follows_recordIncident_done {F : Type} [Arithmetic F] {a w : String} {c : AuthorityClass}
    {reason : PyStr} {actorId : String} {calls : List ((d : Call) × Res d)}
    {report : IncidentReport}
    (h : Follows (recordIncident F a w c reason actorId) calls (.done report)) :
    ∃ front n r, calls = front ++ [⟨.cap (.revokeScope a w c.value), n⟩,
        ⟨.append "incident.recorded" (report.toDict F) (some actorId), .ok r⟩] ∧
      (∀ d ∈ front, d.1.leavesTokens = true) ∧
      ∀ id ∈ report.deactivatedRules, ∃ rule, rule.ruleId = id ∧
        ⟨.addRule rule, ()⟩ ∈ front := by
  unfold recordIncident at h
  simp only [perform_bind, follows_call_done_iff] at h
  obtain ⟨stats, _, rfl, _, _, rfl, h⟩ := h
  rw [follows_bind_done_iff] at h
  obtain ⟨ids, front, back, rfl, hfront, h⟩ := h
  rw [follows_bind_done_iff] at h
  obtain ⟨n, mid, back, rfl, hmid, h⟩ := h
  rw [follows_bind_done_iff] at h
  obtain ⟨r, last, back, rfl, hlast, h⟩ := h
  rw [pure_eq_done, follows_done_iff, Prog.done.injEq] at h
  obtain ⟨rfl, rfl⟩ := h
  have hmid : mid = [⟨.cap (.revokeScope a w c.value), n⟩] := by
    obtain ⟨_, rest, rfl, hrest⟩ := follows_call_done_iff.mp hmid
    obtain ⟨rfl, heq⟩ := follows_done_iff.mp hrest
    cases heq
    rfl
  have huses : (downgrade a w c reason).Uses fun d => d.leavesTokens = true :=
    uses_downgrade (fun _ hd _ => leavesTokens_of_plain hd) (fun _ => rfl) (fun _ => rfl)
      fun _ _ => rfl
  refine ⟨⟨.noteIncident a w c, stats⟩ :: ⟨.countIncident, ()⟩ :: front, n, r, ?_, ?_, ?_⟩
  · rw [hmid, follows_ledgerAppend_done hlast]
    rfl
  · intro d hd
    rcases List.mem_cons.mp hd with rfl | hd
    · rfl
    · rcases List.mem_cons.mp hd with rfl | hd
      · rfl
      · exact hfront.uses_calls huses d hd
  · intro id hid
    obtain ⟨rule, hrule, hmem⟩ := follows_downgrade_done hfront hid
    exact ⟨rule, hrule, List.mem_cons_of_mem _ (List.mem_cons_of_mem _ hmem)⟩

/-! ### Records and marks over time -/

section

variable {P : Primitives} {F : Type} [Arithmetic F] {cp : ControlPlane P F} {o : Oracle}
variable {S C L : Type} [Store S] [CapabilityStateStore C] [AuditLog L]
variable {keys : KeyPair P} {replica : Nat} {s : World S C L} {p q : CpPool F S C L}

omit [Arithmetic F] in
/-- What the calls of the capability service keep, and the passing of time, every call
keeps. -/
theorem keeps_worldHandler {I : CapWorld C → Prop} (h : I (capView s))
    (hpass : ∀ v reads draws, v.reads ≤ reads → I v → I ⟨v.store, reads, draws⟩) {op : Call}
    (hcap : ∀ d, op = .cap d → I (capHandler o d (capView s)).2) :
    I (capView (worldHandler o keys replica op s).2) := by
  by_cases hop : ∃ d, op = .cap d
  · obtain ⟨d, rfl⟩ := hop
    exact hcap d rfl
  · have hne : ∀ d, op ≠ .cap d := fun d hd => hop ⟨d, hd⟩
    obtain ⟨hsame, hreads, _⟩ :
        (worldHandler o keys replica op s).2.capability = s.capability ∧
          s.reads ≤ (worldHandler o keys replica op s).2.reads ∧
          s.draws ≤ (worldHandler o keys replica op s).2.draws := capView_worldHandler hne s
    have hview : capView (worldHandler o keys replica op s).2 =
        ⟨s.capability, (worldHandler o keys replica op s).2.reads,
          (worldHandler o keys replica op s).2.draws⟩ := by
      rw [← hsame]
      rfl
    rw [hview]
    exact hpass (capView s) _ _ hreads h

/-- The token is on record, or its expiry has passed. -/
def TokenKept (o : Oracle) (t : CapabilityToken) (x : DateTime) (v : CapWorld C) : Prop :=
  Passed o x v ∨ issued? v.store t.tokenId = some (entryOf t)

omit [CapabilityStateStore C] in
theorem Passed.later {x : DateTime} {v : CapWorld C} (h : Passed o x v) {reads draws : Nat}
    (hreads : v.reads ≤ reads) : Passed o x (⟨v.store, reads, draws⟩ : CapWorld C) := by
  obtain ⟨k, hk, hx⟩ := h
  exact ⟨k, Nat.lt_of_lt_of_le hk hreads, hx⟩

/-- A purge that is about to run uses a time that the clock has shown. -/
theorem purge_reads_clock {w₀ : World S C L} (hq : (cp.system o).Leads Unguarded (fresh w₀) q)
    {i : Nat} {r : Nat × Command} {now : String} {next : Nat → CpProg (Answer F)}
    (hi : q.threads[i]? = some ⟨r, .call (.cap (.purgeExpired now)) next⟩) :
    ∃ k < q.state.reads, now = isoformat (o.time k) := by
  have hpath := hq.follows hi
  have hown : (Call.cap (.purgeExpired now)).plain = true ∨
      cp.ownCall r.2 (.cap (.purgeExpired now)) :=
    hpath.permits (A := fun d => d.plain = true ∨ cp.ownCall r.2 d)
      (uses_body (fun _ h _ => Or.inl h) (fun _ => Or.inr) fun _ _ _ _ => Or.inl rfl)
  obtain ⟨replica, cmd⟩ := r
  rcases hown with hplain | hown
  · cases hplain
  · cases cmd <;> simp [ownCall] at hown
    obtain ⟨p', hp', heq⟩ := hpath.of_map
    obtain ⟨cs, p'', hcalls, hp'', rfl⟩ := follows_liftCap hp'
    cases p'' with
    | done n => cases heq
    | raise err => cases heq
    | call op next' =>
      cases heq
      rcases follows_purgeExpired_call hp'' with ⟨hnone, _⟩ | ⟨d, hd, rfl⟩
      · cases hnone
      · have hread : ⟨Call.cap .utcNow, d⟩ ∈ calls q.log i := by
          rw [hcalls]
          exact List.mem_map.mpr ⟨_, hd, rfl⟩
        obtain ⟨k, hk, rfl⟩ :=
          (system_history hq).exists_reading (mem_capLog.mpr (mem_calls_iff.mp hread))
        exact ⟨k, hk, rfl⟩

/-- A recorded expiry is a time the clock could show. -/
theorem expiry_of_record {w₀ : World S C L} (hq : (cp.system o).Leads Unguarded (fresh w₀) q)
    {i : Nat} {K : String} {entry : IssuedEntry}
    (h : ⟨i, .cap (.recordIssued K entry), ()⟩ ∈ q.log) : ∃ x, entry.expiresAt = isoformat x := by
  obtain ⟨_, _, _, _, hpath⟩ := exists_proposal_of_record hq h
  obtain ⟨_, _, _, expires, _, _, _, _, _, _, _, _, _, rfl⟩ :=
    follows_proposeEvent_record hpath (mem_calls_iff.mpr h)
  exact ⟨expires, rfl⟩

variable [LawfulCapabilityStore C] {t : CapabilityToken} {x : DateTime}

open LawfulCapabilityStore

/-- A recorded token stays on record until its expiry has passed. -/
theorem tokenKept_of_leads (hfresh : o.Fresh)
    (hq : (cp.system o).Leads Unguarded (fresh (World.initial S C L)) q)
    (hx : t.expiresAt = isoformat x) {i : Nat}
    (hrec : ⟨i, .cap (.recordIssued t.tokenId (entryOf t)), ()⟩ ∈ q.log) :
    TokenKept o t x (capView q.state) := by
  refine hq.log_induction (I := fun s log =>
    (∃ i, ⟨i, .cap (.recordIssued t.tokenId (entryOf t)), ()⟩ ∈ log) → TokenKept o t x (capView s))
    (fun u j r op next hu _ hj _ hI => ?_) (fun ⟨_, h⟩ => nomatch h) ⟨i, hrec⟩
  rintro ⟨i, hmem⟩
  rcases List.mem_append.mp hmem with hold | hnew
  · refine keeps_worldHandler (hI ⟨i, hold⟩) ?_ ?_
    · rintro v reads draws hreads (hpassed | hissued)
      · exact Or.inl (hpassed.later hreads)
      · exact Or.inr hissued
    · rintro d rfl
      rcases hI ⟨i, hold⟩ with hpassed | hissued
      · exact Or.inl (hpassed.capHandler d)
      by_cases hexp : ∃ now, d = .purgeExpired now ∧ t.expiresAt < now
      · obtain ⟨_, rfl, hlt⟩ := hexp
        obtain ⟨k, hk, rfl⟩ := purge_reads_clock hu hj
        rw [hx, isoformat_lt_iff] at hlt
        exact Or.inl ⟨k, hk, hlt⟩
      · refine Or.inr (issued?_capHandler hissued d ?_ fun now hd hlt => hexp ⟨now, hd, hlt⟩)
        rintro e' rfl
        exact not_about_to_record hu hfresh hold hj trivial
  · -- it has been recorded just now, and was not on record before
    right
    have hop : op = .cap (.recordIssued t.tokenId (entryOf t)) := by
      cases List.mem_singleton.mp hnew
      rfl
    subst hop
    rcases issued?_recordIssued_self u.state.capability t.tokenId (entryOf t) with h | ⟨hsome, _⟩
    · exact h
    · obtain ⟨e, he⟩ := Option.isSome_iff_exists.mp hsome
      obtain ⟨l, hl⟩ := (system_history hu).exists_record (fun _ => issued?_empty _) he
      exact (not_about_to_record hu hfresh (mem_capLog.mp hl) hj trivial).elim

/-- A token that was taken back stays so. -/
theorem withdrawn_of_leads (hfresh : o.Fresh)
    (hp : (cp.system o).Leads Unguarded (fresh (World.initial S C L)) p)
    (hq : (cp.system o).Leads Unguarded p q) (hx : t.expiresAt = isoformat x) {i : Nat}
    (hrec : ⟨i, .cap (.recordIssued t.tokenId (entryOf t)), ()⟩ ∈ p.log)
    (h : Withdrawn o t.tokenId (entryOf t) x (capView p.state)) :
    Withdrawn o t.tokenId (entryOf t) x (capView q.state) := by
  refine hq.log_induction
    (I := fun s _ => Withdrawn o t.tokenId (entryOf t) x (capView s))
    (fun u j r op next hu _ hj _ hI => ?_) h
  obtain ⟨later, hlog⟩ := hu.log_grows
  refine keeps_worldHandler hI ?_ ?_
  · rintro v reads draws hreads (hpassed | hmarked)
    · exact Or.inl (hpassed.later hreads)
    · exact Or.inr hmarked
  · rintro d rfl
    refine hI.capHandler hx d ?_ ?_
    · rintro e' rfl
      refine not_about_to_record (hp.trans hu) hfresh (e := entryOf t) (i := i) ?_ hj trivial
      rw [hlog]
      exact List.mem_append_left _ hrec
    · rintro now rfl
      exact purge_reads_clock (hp.trans hu) hj

/-! ### The incident -/

omit [Arithmetic F] [LawfulCapabilityStore C] in
variable (o keys replica) in
theorem capability_worldHandler {op : Call} (h : op.leavesTokens = true) (s : World S C L) :
    (worldHandler o keys replica op s).2.capability = s.capability ∧
      s.reads ≤ (worldHandler o keys replica op s).2.reads := by
  by_cases hop : ∃ d, op = .cap d
  · obtain ⟨d, rfl⟩ := hop
    refine ⟨?_, reads_le_capHandler o d (capView s)⟩
    cases d <;> first | rfl | cases h
  · obtain ⟨hsame, hreads, _⟩ :
        (worldHandler o keys replica op s).2.capability = s.capability ∧
          s.reads ≤ (worldHandler o keys replica op s).2.reads ∧
          s.draws ≤ (worldHandler o keys replica op s).2.draws :=
      capView_worldHandler (fun d hd => hop ⟨d, hd⟩) s
    exact ⟨hsame, hreads⟩

omit [Arithmetic F] in
/-- Tokens that are kept unconsumed until their scope is revoked are withdrawn. -/
theorem withdrawn_of_answers {s' : World S C L} {front : List ((d : Call) × Res d)}
    {n : Nat} {last : (d : Call) × Res d}
    (hanswers : Answers (worldHandler o keys replica) s
      (front ++ [⟨.cap (.revokeScope t.agentId t.workflowId t.authorityClass.value), n⟩, last]) s')
    (hfront : ∀ d ∈ front, d.1.leavesTokens = true) (hlast : last.1.leavesTokens = true)
    (hx : t.expiresAt = isoformat x) (hkept : TokenKept o t x (capView s))
    (hlive : isConsumed t.tokenId s.capability = false) :
    Withdrawn o t.tokenId (entryOf t) x (capView s') := by
  obtain ⟨u, hu, hrest⟩ := answers_append.mp hanswers
  obtain ⟨_, _, rfl⟩ := hrest
  have hsame : u.capability = s.capability ∧ s.reads ≤ u.reads := by
    refine hu.invariant (I := fun u => u.capability = s.capability ∧ s.reads ≤ u.reads)
      (fun d hd v hv => ?_) ⟨rfl, Nat.le_refl _⟩
    obtain ⟨hcap, hreads⟩ := capability_worldHandler o keys replica (hfront d hd) v
    exact ⟨hcap.trans hv.1, hv.2.trans hreads⟩
  let u' : World S C L := (worldHandler o keys replica
    (.cap (.revokeScope t.agentId t.workflowId t.authorityClass.value)) u).2
  have hrevoked : Withdrawn o t.tokenId (entryOf t) x (capView u') := by
    rcases hkept with ⟨k, hk, hlt⟩ | hissued
    · exact Or.inl ⟨k, Nat.lt_of_lt_of_le hk hsame.2, hlt⟩
    · refine withdrawn_of_revokes (Or.inr rfl) ?_ ?_
      · show issued? u.capability t.tokenId = _
        rw [hsame.1]
        exact hissued
      · show isConsumed t.tokenId u.capability = _
        rw [hsame.1]
        exact hlive
  obtain ⟨op, answer⟩ := last
  refine keeps_worldHandler (s := u') hrevoked ?_ ?_
  · rintro v reads draws hreads (hpassed | hmarked)
    · exact Or.inl (hpassed.later hreads)
    · exact Or.inr hmarked
  · rintro d rfl
    refine Withdrawn.capHandler hx hrevoked d ?_ ?_
    · rintro e' rfl
      cases hlast
    · rintro now rfl
      cases hlast

end

/-! ## The result -/

section

variable {P : Primitives} {F : Type} [Arithmetic F] {cp : ControlPlane P F} {o : Oracle}
variable {S C L : Type} [Store S] [CapabilityStateStore C] [LawfulCapabilityStore C] [AuditLog L]
variable {a w : String} {c : AuthorityClass} {reason : PyStr} {actorId : String}
variable {turns : List (CpTurn F S C L)} {s : World S C L} {x y z : CpTurn F S C L}
variable {t : CapabilityToken} {d : DateTime}

/-- The turn is a verification that accepts the token. -/
def Passes (y : CpTurn F S C L) (t : CapabilityToken) : Prop :=
  ∃ action r, y.request.2 = .verifyForAction t action ∧ y.result = .ok (.verified r) ∧ r.ok = true

omit [LawfulCapabilityStore C] in
/-- A withdrawn token is refused. -/
theorem not_passes_of_withdrawn (hsteady : o.Steady) (hd : t.expiresAt = isoformat d)
    (h : Withdrawn o t.tokenId (entryOf t) d (capView y.before))
    (hserve : y = (cp.system o).serve y.before y.request) : ¬ Passes y t := by
  rintro ⟨action, r, hreq, hresult, hok⟩
  have hfollows : Follows ((cp.system (S := S) (C := C) (L := L) o).body y.request) y.calls
      (ofExcept y.result) := by
    rw [hserve]
    exact follows_serve _ _ _
  have hanswers : Answers ((cp.system o).handler y.request) y.before y.calls y.after := by
    rw [hserve]
    exact answers_serve _ _ _
  obtain ⟨before, ⟨replica, cmd⟩, calls, result, after⟩ := y
  obtain rfl : cmd = _ := hreq
  obtain rfl : result = _ := hresult
  obtain ⟨r', hr', heq⟩ := Follows.of_map_done
    (p := liftCap (cp.capabilityService.verifyForAction t action)) hfollows
  obtain rfl : r = r' := by simpa using heq
  obtain ⟨cs, rfl, hcs⟩ := follows_liftCap_done hr'
  obtain ⟨_, _, expires, now, hexpires, hnow, rfl⟩ := follows_verifyForAction_ok hcs hok
  obtain ⟨hunmarked, hread, _⟩ := hanswers
  rcases h with hpassed | ⟨hmarked, _⟩
  · have hread : o.time before.reads = now := hread
    have hlt : d < now := by
      rw [← hread]
      exact hpassed.lt_next hsteady
    rw [hd, fromisoformat_isoformat, Option.some.injEq] at hexpires
    subst hexpires
    simp [hasExpired, hlt.le] at hnow
  · have hunmarked : isRevoked t.tokenId before.capability = false := hunmarked
    have hmarked : isRevoked t.tokenId before.capability = true := hmarked
    rw [hunmarked] at hmarked
    cases hmarked

/-- From an incident on, the tokens of its scope that were not consumed are withdrawn. -/
theorem withdrawn_of_incident (hfresh : o.Fresh)
    (h : (cp.system o).Runs (World.initial S C L) turns s) {i j k : Nat}
    (hi : turns[i]? = some x)
    (hreq : x.request.2 = .recordIncident t.agentId t.workflowId t.authorityClass reason actorId)
    {report : IncidentReport} (hreturns : x.result = .ok (.incident report)) (hki : k < i)
    (hk : turns[k]? = some z) (hmints : Mints z t)
    (hlive : isConsumed t.tokenId x.before.capability = false) (hij : i < j)
    (hj : turns[j]? = some y) :
    ∃ d, t.expiresAt = isoformat d ∧
      Withdrawn o t.tokenId (entryOf t) d (capView y.before) := by
  obtain ⟨hbefore, hserve, _⟩ := h.getElem? hi
  obtain ⟨p, hp, hstate, _, hcalls⟩ := hbefore.leads Relation.ReflTransGen.refl rfl
  have hz : (turns.take i)[k]? = some z := by
    rw [List.getElem?_take_of_lt hki]
    exact hk
  have hrec : ⟨0 + k, .cap (.recordIssued t.tokenId (entryOf t)), ()⟩ ∈ p.log := by
    apply mem_calls_iff.mp
    rw [show calls p.log (0 + k) = z.calls from hcalls k z hz]
    exact hmints
  obtain ⟨d, hd⟩ := expiry_of_record hp hrec
  have hkept := tokenKept_of_leads hfresh hp hd hrec
  rw [hstate] at hkept
  -- the incident takes it back
  have hwithdrawn : Withdrawn o t.tokenId (entryOf t) d (capView x.after) := by
    have hfollows := h.follows hi
    have hanswers := h.answers hi
    obtain ⟨before, ⟨replica, cmd⟩, calls, result, after⟩ := x
    obtain rfl : cmd = _ := hreq
    obtain rfl : result = _ := hreturns
    obtain ⟨report', hreport, _⟩ := Follows.of_map_done
      (p := recordIncident F t.agentId t.workflowId t.authorityClass reason actorId) hfollows
    obtain ⟨front, n, r, rfl, hfront, _⟩ := follows_recordIncident_done hreport
    exact withdrawn_of_answers hanswers hfront rfl hd hkept hlive
  have hturn : (cp.system o).Runs x.before [x] x.after := by
    rw [hserve]
    exact Runs.nil.snoc x.request
  obtain ⟨p', hp', hstate', _⟩ := hturn.leads hp hstate
  obtain ⟨turns', hbetween⟩ := h.between hij hi hj
  obtain ⟨q, hq, hqstate, _⟩ := hbetween.leads (hp.trans hp') hstate'
  obtain ⟨later, hlog⟩ := hp'.log_grows
  refine ⟨d, hd, ?_⟩
  rw [← hqstate]
  refine withdrawn_of_leads hfresh (hp.trans hp') hq hd (i := 0 + k) ?_ ?_
  · rw [hlog]
    exact List.mem_append_left _ hrec
  · rw [hstate']
    exact hwithdrawn

variable [LawfulStore S] [OrderedStore S]

/-- An incident that returns closes every path of a registered agent to an execution in the
scope: its rules and its standing level, the tokens that were not consumed, for good, and
the proposals, until a rule is approved for the scope or the agent is registered again. -/
theorem incident_closes_every_path (hstrict : cp.policyEngine.Strict) (hsteady : o.Steady)
    (hfresh : o.Fresh) (h : (cp.system o).Runs (World.initial S C L) turns s) {i : Nat}
    (hi : turns[i]? = some x) (hreq : x.request.2 = .recordIncident a w c reason actorId)
    {report : IncidentReport} (hreturns : x.result = .ok (.incident report))
    {agent : AgentIdentity} (hagent : getAgent a x.before.store = some agent) :
    RulesClosed (view x.after.store) a w c ∧
      (∃ agent' old new, getAgent a x.after.store = some agent' ∧
        agent.autonomyFor w c = .ok old ∧ agent'.autonomyFor w c = .ok new ∧
        new.value ≤ old.value ∧ new.value ≤ AutonomyLevel.executeWithApproval.value) ∧
      (∀ j y k z t, i < j → turns[j]? = some y → k < i → turns[k]? = some z → Mints z t →
        t.agentId = a → t.workflowId = w → t.authorityClass = c →
        isConsumed t.tokenId x.before.capability = false → ¬ Passes y t) ∧
      ∀ j y e, i < j → turns[j]? = some y →
        (∀ k z, i < k → k < j → turns[k]? = some z → ¬ Opens a w c z) →
        y.request.2 = .proposeEvent e → e.agentId = a → e.workflowId = w →
        e.authorityRequested = c → e.requiresExecution = true →
        ¬ Issues y ∧ ∀ p, y.result = .ok (.packet p) → p.token = none := by
  obtain ⟨hbefore, hserve, _⟩ := h.getElem? hi
  obtain ⟨hkeyed, hrules⟩ := keyed_of_runs hbefore
  obtain ⟨hclosed, agent', current, hagent', hcurrent, hlowered⟩ :=
    scopeClosed_of_incident hserve hreq hreturns hkeyed hrules hagent
  have happroval : (current.cappedAt .executeWithApproval).value ≤
      AutonomyLevel.executeWithApproval.value := by
    rw [AutonomyLevel.value_cappedAt]
    exact Nat.min_le_right _ _
  have hlower : (current.cappedAt .executeWithApproval).value ≤ current.value := by
    rw [AutonomyLevel.value_cappedAt]
    exact Nat.min_le_left _ _
  refine ⟨hclosed, ⟨agent', _, _, hagent', hcurrent, hlowered, hlower, happroval⟩, ?_, ?_⟩
  · intro j y k z t hij hj hki hk hmints ha hw hc hlive
    subst ha hw hc
    obtain ⟨d, hd, hwithdrawn⟩ :=
      withdrawn_of_incident hfresh h hi hreq hreturns hki hk hmints hlive hij hj
    exact not_passes_of_withdrawn hsteady hd hwithdrawn (h.getElem? hj).2.1
  · intro j y e hij hj hnone hproposes ha hw hc hexecutes
    have hlevel : LevelLowered (view x.after.store) a w c :=
      ⟨agent', _, (getAgent_eq _ _).symm.trans hagent', hlowered, happroval⟩
    have hscope : ScopeClosed (view y.before.store) a w c :=
      h.invariant_between (I := fun s => ScopeClosed (view s.store) a w c) hij hi hj
        ⟨hclosed, hlevel⟩ fun k z hik hkj hk hserve hz =>
          hz.turn hserve (keyed_of_runs (h.getElem? hk).1).1 (hnone k z hik hkj hk)
    have hissues := not_issues_of_scopeClosed hstrict hscope (h.getElem? hj).2.1 hproposes ha hw
      hc hexecutes
    refine ⟨hissues, fun p hp => ?_⟩
    by_contra htoken
    obtain ⟨t, ht⟩ := Option.ne_none_iff_exists'.mp htoken
    have hacc : Accepted y e p := ⟨hproposes, hp⟩
    exact hissues ⟨_, hacc.mints (h.getElem? hj).2.1 ht, trivial⟩

end

/-! ### An incident after a grant -/

/-- A rule lets the agent execute under sampling. -/
def ruledDemo : List (Nat × Command) := [
  (0, .registerAgent demoAgent),
  (0, .approveDelegationRule (demoRule .modifyInternalRecord .executeWithSampling) "approver" none)]

def proposalDemo : Nat × Command := (0, .proposeEvent (demoEvent true))

def incidentAfterwards : Nat × Command :=
  (0, .recordIncident "agent" "claims" .modifyInternalRecord "wrong record" "operator")

/-- The token is presented and the agent proposes again. -/
def retryDemo (t : CapabilityToken) : List (Nat × Command) := [
  (1, .verifyForAction t demoAction),
  (0, .proposeEvent { demoEvent true with eventId := "evt_2", nonce := "n2" })]

/-- The agent is granted a token, and an incident is recorded. -/
def closingDemo (t : CapabilityToken) : List (Nat × Command) :=
  ruledDemo ++ proposalDemo :: incidentAfterwards :: retryDemo t

/-- The state after the requests. -/
def stateAfter (requests : List (Nat × Command)) : SqlWorld :=
  demoSystem.final (World.initial _ _ _) requests

/-- The token that the proposal was answered with. -/
def grantedToken : Option CapabilityToken :=
  tokenOf (demoSystem.serve (stateAfter ruledDemo) proposalDemo).result

/-- The incident report, if there is one. -/
def reportOf {F : Type} : Except PyError (Answer F) → Option IncidentReport
  | .ok (.incident report) => some report
  | _ => none

theorem exists_report_of_reportOf {F : Type} {r : Except PyError (Answer F)}
    {report : IncidentReport} (h : reportOf r = some report) : r = .ok (.incident report) := by
  unfold reportOf at h
  split at h
  · cases h
    rfl
  · cases h

/-- The token is refused and the second proposal gets none. -/
theorem incident_beats_rule_and_token :
    ∃ t, grantedToken = some t ∧
      let turns := demoSystem.history (World.initial _ _ _) (closingDemo t)
      (∃ y, turns[4]? = some y ∧ ¬ Passes y t) ∧ ∃ y, turns[5]? = some y ∧ ¬ Issues y := by
  let first : List (Nat × Command) := ruledDemo ++ [proposalDemo]
  obtain ⟨hgranted, hreport, hstored⟩ :
      grantedToken.any (fun t => t.agentId = "agent" && t.workflowId = "claims" &&
        t.authorityClass = .modifyInternalRecord &&
          !isConsumed t.tokenId (stateAfter first).capability) = true ∧
      (reportOf (demoSystem.serve (stateAfter first) incidentAfterwards).result).isSome = true ∧
      (getAgent "agent" (stateAfter first).store).isSome = true := by
    decide +kernel
  obtain ⟨t, ht, hscope⟩ := (Option.any_eq_true _ _).mp hgranted
  simp only [Bool.and_eq_true, decide_eq_true_eq, Bool.not_eq_true'] at hscope
  obtain ⟨⟨⟨hagent, hworkflow⟩, hclass⟩, hlive⟩ := hscope
  obtain ⟨report, hreport⟩ := Option.isSome_iff_exists.mp hreport
  obtain ⟨agent, hstored⟩ := Option.isSome_iff_exists.mp hstored
  obtain ⟨p, hp, htoken⟩ := exists_packet_of_tokenOf ht
  have hproposal : (demoSystem.history (World.initial _ _ _) (closingDemo t))[ruledDemo.length]? =
      some (demoSystem.serve (stateAfter ruledDemo) proposalDemo) :=
    getElem?_history_append _ ruledDemo _ _
  have hincident : (demoSystem.history (World.initial _ _ _) (closingDemo t))[first.length]? =
      some (demoSystem.serve (stateAfter first) incidentAfterwards) :=
    getElem?_history_append _ first _ _
  -- the states before the two turns need not be computed
  generalize stateAfter ruledDemo = w₀ at hp hproposal
  generalize stateAfter first = w at hlive hreport hstored hincident
  obtain ⟨_, _, htokens, hproposals⟩ := incident_closes_every_path (by decide)
    (fun _ _ _ => le_refl _) (demoOracle_fresh _) (runs_history _ _) hincident rfl
    (exists_report_of_reportOf hreport) hstored
  refine ⟨t, ht, ⟨_, rfl, ?_⟩, ⟨_, rfl, ?_⟩⟩
  · refine htokens 4 _ _ _ t (by decide) rfl (by decide) hproposal ?_ hagent hworkflow hclass hlive
    exact Accepted.mints (e := demoEvent true) ⟨rfl, hp⟩ rfl htoken
  · refine (hproposals 5 _ _ (by decide) rfl (fun k z hik hkj hk => ?_) rfl rfl rfl rfl rfl).1
    have hlength : first.length = 3 := rfl
    obtain rfl : k = 4 := by omega
    obtain rfl := Option.some.inj hk
    exact fun h => h.1

end EarnedAutonomy
