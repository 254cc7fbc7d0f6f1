import EarnedAutonomy.Core.StoreSteps
import EarnedAutonomy.Core.TokenLog
import EarnedAutonomy.Lib.Register

/-!
# Incidents that are recorded at once

`record_incident` reads the row of the agent, changes two of its fields and
writes the whole row back in another transaction.  The row is therefore a cell
that is read and written back.

* `phase_of_follows`: a `record_incident` reads the agent once and writes back
  what `afterIncident` makes of it.
* `wellFormed_of_leads`: in a pool of incidents the accesses to the row are those
  of a cell, whose value is the row.
* `incidents_are_sequential_iff`: the row is that of a sequential order, with
  every incident counted, exactly if no one wrote between the read and the write
  of another.
* `second_incident_is_lost`: two replicas that read before either writes count
  one incident, and one of the two levels stays up.
-/

namespace EarnedAutonomy

open Atomic Service Prog Calendar Store ControlPlane OrderedDict Register

/-! ## One incident -/

/-- What `record_incident` makes of the agent it has read.  It raises at a level that is
not one of the ladder. -/
def afterIncident (workflowId : String) (authorityClass : AuthorityClass)
    (agent : AgentIdentity) : Option AgentIdentity :=
  match agent.autonomyFor workflowId authorityClass with
  | .ok current => some ((withIncident agent).setAutonomy workflowId authorityClass
      (current.cappedAt .executeWithApproval))
  | .error _ => none

/-- The call reads or writes an agent. -/
def Call.onAgents : Call → Bool
  | .getAgent _ | .addAgent _ => true
  | _ => false

/-- Where a `record_incident` stands: it has not read the agent, it has read it, or it
has written it back. -/
inductive Phase {α : Type} (a wf : String) (c : AuthorityClass) :
    List ((c : Call) × Res c) → CpProg α → Prop where
  | early {calls : List ((c : Call) × Res c)} {q : CpProg α}
      (hcalls : ∀ d ∈ calls, d.1.onAgents = false)
      (hq : ∃ op next, q = .call op next ∧ (op.onAgents = true → op = .getAgent a)) :
      Phase a wf c calls q
  | read {calls : List ((c : Call) × Res c)} {q : CpProg α} {g : Option AgentIdentity}
      (hget : ⟨.getAgent a, g⟩ ∈ calls) (hcalls : ∀ x r, ⟨.addAgent x, r⟩ ∉ calls)
      (hq : ∀ op next, q = .call op next → op.onAgents = true →
        ∃ agent x, g = some agent ∧ afterIncident wf c agent = some x ∧ op = .addAgent x)
      (hover : (∀ op next, q ≠ .call op next) → ∀ agent ∈ g, afterIncident wf c agent = none) :
      Phase a wf c calls q
  | written {calls : List ((c : Call) × Res c)} {q : CpProg α} {agent x : AgentIdentity}
      (hget : ⟨.getAgent a, some agent⟩ ∈ calls) (hx : afterIncident wf c agent = some x)
      (hadd : ⟨.addAgent x, ()⟩ ∈ calls)
      (hq : ∀ op next, q = .call op next → op.onAgents = false) : Phase a wf c calls q

section

variable {F : Type} [Arithmetic F] {a wf actorId : String} {c : AuthorityClass} {reason : PyStr}
variable {calls : List ((c : Call) × Res c)}

/-- Nothing in the program reads or writes an agent. -/
abbrev Aside {α : Type} (p : CpProg α) : Prop := p.Uses fun c => c.onAgents = false

theorem Aside.of_follows {α : Type} {p q : CpProg α} (hp : Aside p) (h : Follows p calls q) :
    (∀ d ∈ calls, d.1.onAgents = false) ∧
      ∀ op next, q = .call op next → op.onAgents = false := by
  refine ⟨h.uses_calls hp, ?_⟩
  rintro op next rfl
  exact h.permits hp

variable (F a wf c reason actorId) in
/-- What is left of a `record_incident` after the agent. -/
def concludeIncident (stats : TrustStats) (rules : List String) : CpProg IncidentReport := do
  let revoked ← liftCap (CapabilityService.revokeScope a wf c)
  let report : IncidentReport := ⟨a, wf, c, reason, rules, revoked, stats⟩
  let _ ← ledgerAppend "incident.recorded" (report.toDict F) (some actorId)
  return report

theorem aside_concludeIncident (stats : TrustStats) (rules : List String) :
    Aside (concludeIncident F a wf actorId c reason stats rules) :=
  uses_bind (uses_revokeScope rfl) fun _ => uses_bind (uses_ledgerAppend rfl) fun _ => trivial

theorem aside_closeRules (stats : TrustStats) :
    Aside (call (.rulesFor a wf c.value) >>= fun rules =>
      deactivateRules reason rules >>= concludeIncident F a wf actorId c reason stats) := by
  refine uses_call_bind rfl fun rules => ?_
  exact uses_bind (uses_deactivateRules (fun _ _ => rfl) rules) fun ids =>
    aside_concludeIncident stats ids

/-- Where its calls have led a `record_incident`. -/
theorem phase_of_follows {q : CpProg IncidentReport}
    (h : Follows (recordIncident F a wf c reason actorId) calls q) : Phase a wf c calls q := by
  unfold recordIncident at h
  simp only [perform_bind] at h
  rcases follows_call_iff.mp h with ⟨rfl, rfl⟩ | ⟨stats, rest₁, rfl, h₁⟩
  · exact .early (by simp) ⟨_, _, rfl, nofun⟩
  rcases follows_call_iff.mp h₁ with ⟨rfl, rfl⟩ | ⟨u, rest₂, rfl, h₂⟩
  · exact .early (by simp [Call.onAgents]) ⟨_, _, rfl, nofun⟩
  unfold downgrade at h₂
  simp only [perform_bind, call_bind] at h₂
  rcases follows_call_iff.mp h₂ with ⟨rfl, rfl⟩ | ⟨found, rest₃, rfl, h₃⟩
  · exact .early (by simp [Call.onAgents]) ⟨_, _, rfl, fun _ => rfl⟩
  have hread : ⟨Call.getAgent a, found⟩ ∈ (⟨Call.noteIncident a wf c, stats⟩ ::
      ⟨Call.countIncident, u⟩ :: ⟨Call.getAgent a, found⟩ :: rest₃ :
      List ((c : Call) × Res c)) := by
    simp
  cases found with
  | none =>
    obtain ⟨hcalls, hq⟩ := (aside_concludeIncident (F := F) stats []).of_follows h₃
    refine .read hread (fun x r hmem => ?_) (fun op next hop hon => ?_) (by simp)
    · rcases List.mem_cons.mp hmem with hmem | hmem
      · cases hmem
      · rcases List.mem_cons.mp hmem with hmem | hmem
        · cases hmem
        · rcases List.mem_cons.mp hmem with hmem | hmem
          · cases hmem
          · exact absurd (hcalls _ hmem) (by simp [Call.onAgents])
    · rw [hq op next hop] at hon
      cases hon
  | some agent =>
    rcases follows_call_iff.mp h₃ with ⟨rfl, rfl⟩ | ⟨u', rest₄, rfl, h₄⟩
    · refine .read hread (by simp) (fun op next hop hon => ?_) fun hover => ?_
      · cases hop
        cases hon
      · exact absurd rfl (hover _ _)
    have hstep : afterIncident wf c agent = match agent.autonomyFor wf c with
        | .ok current => some ((withIncident agent).setAutonomy wf c
          (current.cappedAt .executeWithApproval))
        | .error _ => none := rfl
    change Follows ((Prog.ofExcept (agent.autonomyFor wf c) >>= _) >>= _) _ _ at h₄
    cases hlevel : agent.autonomyFor wf c with
    | error err =>
      rw [hlevel] at h₄ hstep
      obtain ⟨rfl, rfl⟩ := follows_raise_iff.mp h₄
      refine .read hread (by simp) (fun op next hop _ => nomatch hop) fun _ => ?_
      simpa using hstep
    | ok current =>
      rw [hlevel] at h₄ hstep
      rcases follows_call_iff.mp h₄ with ⟨rfl, rfl⟩ | ⟨u'', rest₅, rfl, h₅⟩
      · refine .read hread (by simp) (fun op next hop _ => ?_) fun hover => absurd rfl (hover _ _)
        cases hop
        exact ⟨agent, _, rfl, hstep, rfl⟩
      · have haside : Aside (call (.rulesFor a wf c.value) >>= fun rules =>
            deactivateRules reason rules >>= concludeIncident F a wf actorId c reason stats) :=
          aside_closeRules stats
        exact .written hread hstep (by simp) (haside.of_follows h₅).2

/-- A pure step on the result makes no difference. -/
theorem Phase.map {α β : Type} {q : CpProg α} (h : Phase a wf c calls q) (f : α → β) :
    Phase a wf c calls (q >>= fun x => .done (f x)) := by
  have hcall {op : Call} {next : Res op → CpProg β}
      (hq : (q >>= fun x => .done (f x)) = .call op next) : ∃ next', q = .call op next' := by
    cases q with
    | done x => cases hq
    | raise e => cases hq
    | call op' next' =>
      cases hq
      exact ⟨next', rfl⟩
  cases h with
  | early hcalls hq =>
    obtain ⟨op, next, rfl, hop⟩ := hq
    exact .early hcalls ⟨op, _, rfl, hop⟩
  | read hget hcalls hq hover =>
    refine .read hget hcalls (fun op next hop hon => ?_) fun hnot => hover fun op next hop => ?_
    · obtain ⟨next', hop'⟩ := hcall hop
      exact hq op next' hop' hon
    · subst hop
      exact hnot _ _ rfl
  | written hget hx hadd hq =>
    refine .written hget hx hadd fun op next hop => ?_
    obtain ⟨next', hop'⟩ := hcall hop
    exact hq op next' hop'

end

/-! ## The row of the agent -/

section

variable {P : Primitives} {F : Type} [Arithmetic F] {cp : ControlPlane P F} {o : Oracle}
variable {C L : Type} [CapabilityStateStore C] [AuditLog L]

/-- An access to the row of an agent, with what is stored. -/
def access? (a : String) : Entry Res → Option (Access AgentIdentity)
  | ⟨i, .getAgent b, some agent⟩ => if b = a then some (.read i agent) else none
  | ⟨i, .addAgent x, _⟩ => if x.agentId = a then some (.write i (columnAgent x)) else none
  | _ => none

def accesses (a : String) (log : List (Entry Res)) : List (Access AgentIdentity) :=
  log.filterMap (access? a)

theorem accesses_concat (a : String) (log : List (Entry Res)) (e : Entry Res) :
    accesses a (log ++ [e]) = accesses a log ++ (access? a e).toList := by
  unfold accesses
  rw [List.filterMap_append]
  cases h : access? a e <;> simp [h]

/-- Only `add_agent` changes the row of an agent. -/
theorem getAgent_worldHandler {keys : KeyPair P} {replica : Nat} {op : Call}
    (hop : ∀ x, op ≠ .addAgent x) (a : String) (w : World SqlStore C L) :
    getAgent a (worldHandler o keys replica op w).2.store = getAgent a w.store := by
  cases op with
  | addAgent x => exact absurd rfl (hop x)
  | applyDecision _ _ _ _ =>
    simp only [worldHandler]
    split <;> rfl
  | claimNonce i n =>
    simp only [worldHandler, getAgent, claimNonce, SqlStore.claimNonce]
    split <;> rfl
  | _ => rfl

theorem getAgent_addAgent (x : AgentIdentity) (s : SqlStore) :
    getAgent x.agentId (addAgent x s) = some (columnAgent x) := Dict.get?_set_self _ _ _

/-- The scope of an incident. -/
def incidentScope? : Command → Option (String × String × AuthorityClass)
  | .recordIncident a wf c _ _ => some (a, wf, c)
  | _ => none

/-- What a request of the pool makes of the row it has read. -/
def incidentStep (p : CpPool F SqlStore C L) (i : Nat) (agent : AgentIdentity) :
    Option AgentIdentity :=
  match (request? p i).bind fun r => incidentScope? r.2 with
  | some (_, wf, c) => (afterIncident wf c agent).map columnAgent
  | none => none

/-- Every request is an incident of the agent. -/
def AllIncidents (a : String) (p : CpPool F SqlStore C L) : Prop :=
  ∀ i r, request? p i = some r → ∃ wf c, incidentScope? r.2 = some (a, wf, c)

theorem access?_of_aside {a : String} {i : Nat} {op : Call} {r : Res op}
    (h : op.onAgents = false) : access? a ⟨i, op, r⟩ = none := by
  cases op with
  | getAgent _ => cases h
  | addAgent _ => cases h
  | _ => rfl

theorem read_mem_accesses {a : String} {log : List (Entry Res)} {i : Nat} {v : AgentIdentity} :
    .read i v ∈ accesses a log ↔ ⟨i, .getAgent a, some v⟩ ∈ log := by
  unfold accesses
  rw [List.mem_filterMap]
  constructor
  · rintro ⟨e, he, haccess⟩
    unfold access? at haccess
    split at haccess
    · split at haccess
      · rename_i hb
        cases haccess
        exact hb ▸ he
      · cases haccess
    · split at haccess <;> cases haccess
    · cases haccess
  · exact fun h => ⟨_, h, by simp [access?]⟩

theorem mem_writers_accesses {a : String} {log : List (Entry Res)} {i : Nat} :
    i ∈ writers (accesses a log) ↔ ∃ x, x.agentId = a ∧ ⟨i, .addAgent x, ()⟩ ∈ log := by
  unfold writers accesses
  simp only [List.mem_filterMap]
  constructor
  · rintro ⟨b, ⟨e, he, haccess⟩, hb⟩
    unfold access? at haccess
    split at haccess
    · split at haccess <;> cases haccess
      cases hb
    · split at haccess <;> cases haccess
      rename_i hx
      cases hb
      exact ⟨_, hx, he⟩
    · cases haccess
  · rintro ⟨x, hx, he⟩
    exact ⟨.write i (columnAgent x), ⟨_, he, by simp [access?, hx]⟩, rfl⟩

theorem agentId_of_afterIncident {wf : String} {c : AuthorityClass} {v x : AgentIdentity}
    (h : afterIncident wf c v = some x) : x.agentId = v.agentId := by
  unfold afterIncident at h
  split at h <;> cases h
  rfl

omit [Arithmetic F] [CapabilityStateStore C] [AuditLog L] in
/-- What a request makes of the row. -/
theorem exists_of_incidentStep {p : CpPool F SqlStore C L} {i : Nat} {v v' : AgentIdentity}
    (h : incidentStep p i v = some v') :
    ∃ wf c x, afterIncident wf c v = some x ∧ v' = columnAgent x := by
  unfold incidentStep at h
  split at h
  · obtain ⟨x, hx, hv'⟩ := Option.map_eq_some_iff.mp h
    exact ⟨_, _, x, hx, hv'.symm⟩
  · cases h

omit [Arithmetic F] [CapabilityStateStore C] [AuditLog L] in
theorem agentId_of_incidentStep {p : CpPool F SqlStore C L} {i : Nat} {v v' : AgentIdentity}
    (h : incidentStep p i v = some v') : v'.agentId = v.agentId := by
  obtain ⟨_, _, x, hx, rfl⟩ := exists_of_incidentStep h
  show x.agentId = v.agentId
  exact agentId_of_afterIncident hx

/-- Where a request of the pool stands. -/
theorem phase_of_leads {w : World SqlStore C L} {u : CpPool F SqlStore C L}
    (hu : (cp.system o).Leads Unguarded (fresh w) u) {i : Nat} {r : Nat × Command}
    {body : CpProg (Answer F)} (hi : u.threads[i]? = some ⟨r, body⟩) {a wf : String}
    {c : AuthorityClass} (hscope : incidentScope? r.2 = some (a, wf, c)) :
    Phase a wf c (calls u.log i) body := by
  have hfollows := hu.follows hi
  obtain ⟨replica, cmd⟩ := r
  cases cmd with
  | recordIncident a' wf' c' reason actorId =>
    cases hscope
    obtain ⟨q, hq, rfl⟩ := Follows.of_map (p := recordIncident F a wf c reason actorId) hfollows
    exact (phase_of_follows hq).map _
  | _ => cases hscope

/-- The accesses to the row are those of a cell, and the row is its value. -/
theorem wellFormed_of_leads {w : World SqlStore C L} {agent : AgentIdentity}
    (hagent : getAgent agent.agentId w.store = some agent) {p : CpPool F SqlStore C L}
    (h : (cp.system o).Leads Unguarded (fresh w) p) (hall : AllIncidents agent.agentId p) :
    WellFormed (incidentStep p) agent (accesses agent.agentId p.log) ∧
      getAgent agent.agentId p.state.store =
        some (current agent (accesses agent.agentId p.log)) ∧
      ∀ i, ⟨i, .getAgent agent.agentId, none⟩ ∉ p.log := by
  refine h.log_induction (I := fun s log =>
    WellFormed (incidentStep p) agent (accesses agent.agentId log) ∧
      getAgent agent.agentId s.store = some (current agent (accesses agent.agentId log)) ∧
      ∀ i, ⟨i, .getAgent agent.agentId, none⟩ ∉ log)
    (fun u i r op next hu hrest hi _ ⟨hwf, hrow, hfound⟩ => ?_)
    ⟨.nil, hagent, fun _ h => nomatch h⟩
  have hrequest : request? p i = some r := by
    obtain ⟨t, ht, hreq⟩ := getElem?_move (S := cp.system o) hi (.advance i)
    obtain ⟨t', ht', hreq'⟩ := hrest.getElem? ht
    rw [request?, ht']
    exact congrArg some (hreq'.trans hreq)
  obtain ⟨wf, c, hscope⟩ := hall i r hrequest
  have hstep (v : AgentIdentity) : incidentStep p i v = (afterIncident wf c v).map columnAgent := by
    simp only [incidentStep, hrequest, Option.bind_some, hscope]
  have hphase := phase_of_leads hu hi hscope
  rw [accesses_concat]
  cases hon : op.onAgents with
  | false =>
    rw [access?_of_aside hon, Option.toList_none, List.append_nil]
    have hop : ∀ x, op ≠ .addAgent x := by
      rintro x rfl
      cases hon
    refine ⟨hwf, ?_, fun j hj => ?_⟩
    · exact (getAgent_worldHandler hop _ _).trans hrow
    · rcases List.mem_append.mp hj with hj | hj
      · exact hfound j hj
      · have hop' : .getAgent agent.agentId = op := congrArg Entry.op (List.mem_singleton.mp hj)
        rw [← hop'] at hon
        cases hon
  | true =>
    cases hphase with
    | early hcalls hq =>
      obtain ⟨op', next', hbody, hget⟩ := hq
      cases hbody
      have hop := hget hon
      subst hop
      have haccess : access? agent.agentId ⟨i, .getAgent agent.agentId,
          ((cp.system o).handler r (.getAgent agent.agentId) u.state).1⟩ =
            some (.read i (current agent (accesses agent.agentId u.log))) := by
        have hanswer : ((cp.system o).handler r (.getAgent agent.agentId) u.state).1 =
            some (current agent (accesses agent.agentId u.log)) := hrow
        rw [hanswer]
        simp [access?]
      rw [haccess, Option.toList_some]
      refine ⟨hwf.read fun v hv => ?_, ?_, fun j hj => ?_⟩
      · have hmem := mem_calls_iff.mpr (read_mem_accesses.mp hv)
        exact absurd (hcalls _ hmem) (by simp [Call.onAgents])
      · rw [current_append]
        exact hrow
      · rcases List.mem_append.mp hj with hj | hj
        · exact hfound j hj
        · have heq := List.mem_singleton.mp hj
          simp only [Entry.mk.injEq, heq_eq_eq, true_and] at heq
          cases heq.2.trans hrow
    | read hget hcalls hq hover =>
      obtain ⟨v, x, rfl, hx, rfl⟩ := hq _ _ rfl hon
      have hread : .read i v ∈ accesses agent.agentId u.log :=
        read_mem_accesses.mpr (mem_calls_iff.mp hget)
      have hid : x.agentId = agent.agentId := by
        have hv := (hwf.invariant (I := fun v => v.agentId = agent.agentId) rfl
          fun _ _ _ h hv => (agentId_of_incidentStep h).trans hv).2 i v hread
        rw [agentId_of_afterIncident hx, hv]
      have haccess : access? agent.agentId (⟨i, .addAgent x, ()⟩ : Entry Res) =
          some (.write i (columnAgent x)) := by
        simp [access?, hid]
      change WellFormed _ _
          (_ ++ (access? agent.agentId (⟨i, .addAgent x, ()⟩ : Entry Res)).toList) ∧
        getAgent agent.agentId (addAgent x u.state.store) = some (current agent (_ ++
          (access? agent.agentId (⟨i, .addAgent x, ()⟩ : Entry Res)).toList)) ∧ _
      rw [haccess, Option.toList_some]
      refine ⟨hwf.write hread (fun hi => ?_) (by rw [hstep, hx]; rfl), ?_, fun j hj => ?_⟩
      · obtain ⟨y, _, hy⟩ := mem_writers_accesses.mp hi
        exact hcalls y () (mem_calls_iff.mpr hy)
      · rw [current_append, current_write, current_nil, ← hid]
        exact getAgent_addAgent x _
      · rcases List.mem_append.mp hj with hj | hj
        · exact hfound j hj
        · cases List.mem_singleton.mp hj
    | written hget hx hadd hq =>
      rw [hq _ _ rfl] at hon
      cases hon

/-- A request that is over has written the row, or has read a level outside the ladder. -/
theorem written_of_over {w : World SqlStore C L} {agent : AgentIdentity}
    (hagent : getAgent agent.agentId w.store = some agent) {p : CpPool F SqlStore C L}
    (h : (cp.system o).Leads Unguarded (fresh w) p) (hall : AllIncidents agent.agentId p)
    (hover : ∀ i, nextCall? p i = none) {i : Nat} {r : Nat × Command}
    (hi : request? p i = some r) :
    i ∈ writers (accesses agent.agentId p.log) ∨
      ∃ v, .read i v ∈ accesses agent.agentId p.log ∧ incidentStep p i v = none := by
  obtain ⟨hwf, _, hfound⟩ := wellFormed_of_leads hagent h hall
  obtain ⟨wf, c, hscope⟩ := hall i r hi
  obtain ⟨body, hbody⟩ := request?_eq_some_iff.mp hi
  have hstep (v : AgentIdentity) : incidentStep p i v = (afterIncident wf c v).map columnAgent := by
    simp only [incidentStep, hi, Option.bind_some, hscope]
  have hnext (op : Call) (next : Res op → CpProg (Answer F)) : body ≠ .call op next := by
    rintro rfl
    have hsome := nextCall?_eq_some_iff.mpr ⟨r, next, hbody⟩
    rw [hover i] at hsome
    cases hsome
  cases phase_of_leads h hbody hscope with
  | early hcalls hq =>
    obtain ⟨op, next, hcall, _⟩ := hq
    exact absurd hcall (hnext op next)
  | @read g hget hcalls hq hstop =>
    cases g with
    | none => exact absurd (mem_calls_iff.mp hget) (hfound i)
    | some v =>
      refine Or.inr ⟨v, read_mem_accesses.mpr (mem_calls_iff.mp hget), ?_⟩
      rw [hstep, hstop hnext v rfl]
      rfl
  | @written v x hget hx hadd hq =>
    have hread := read_mem_accesses.mpr (mem_calls_iff.mp hget)
    have hv := (hwf.invariant (I := fun v => v.agentId = agent.agentId) rfl
      fun _ _ _ h hv => (agentId_of_incidentStep h).trans hv).2 i v hread
    refine Or.inl (mem_writers_accesses.mpr ⟨x, ?_, mem_calls_iff.mp hadd⟩)
    rw [agentId_of_afterIncident hx, hv]

/-! ## Levels and counts -/

/-- The level under the scope is one of the ladder. -/
def OnLadder (wf : String) (c : AuthorityClass) (agent : AgentIdentity) : Prop :=
  ∃ level, agent.autonomyFor wf c = .ok level

/-- The level under the scope is at most `EXECUTE_WITH_APPROVAL`. -/
def Reduced (wf : String) (c : AuthorityClass) (agent : AgentIdentity) : Prop :=
  ∃ level, agent.autonomyFor wf c = .ok level ∧
    level.value ≤ AutonomyLevel.executeWithApproval.value

/-- Levels that are set are on the ladder. -/
theorem OnLadder.setAutonomy {wf wf' : String} {c c' : AuthorityClass} {v : AgentIdentity}
    (h : OnLadder wf c v) (level : AutonomyLevel) : OnLadder wf c (v.setAutonomy wf' c' level) := by
  by_cases hkey : AgentIdentity.autonomyKey wf' c' = AgentIdentity.autonomyKey wf c
  · exact ⟨level, by simp [AgentIdentity.autonomyFor, AgentIdentity.setAutonomy, hkey]⟩
  · obtain ⟨level', hlevel⟩ := h
    refine ⟨level', ?_⟩
    rw [← hlevel]
    simp [AgentIdentity.autonomyFor, AgentIdentity.setAutonomy, Dict.get?_set_ne _ _ hkey]

/-- An agent without levels may observe everywhere. -/
theorem onLadder_of_currentAutonomy {v : AgentIdentity} (h : v.currentAutonomy = []) (wf : String)
    (c : AuthorityClass) : OnLadder wf c v := by
  refine ⟨.observeOnly, ?_⟩
  rw [AgentIdentity.autonomyFor, h]
  rfl

theorem afterIncident_isSome {wf : String} {c : AuthorityClass} {v : AgentIdentity} :
    (∃ x, afterIncident wf c v = some x) ↔ OnLadder wf c v := by
  unfold afterIncident OnLadder
  cases v.autonomyFor wf c <;> simp

/-- An incident lowers its own level and leaves the others. -/
theorem autonomyFor_afterIncident {wf wf' : String} {c c' : AuthorityClass} {v x : AgentIdentity}
    (h : afterIncident wf' c' v = some x) :
    (∃ level, v.autonomyFor wf c = .ok level ∧
      (columnAgent x).autonomyFor wf c = .ok (level.cappedAt .executeWithApproval)) ∨
    (columnAgent x).autonomyFor wf c = v.autonomyFor wf c := by
  unfold afterIncident at h
  cases hlevel : v.autonomyFor wf' c' with
  | error err =>
    rw [hlevel] at h
    cases h
  | ok level =>
    rw [hlevel] at h
    cases h
    by_cases hkey : AgentIdentity.autonomyKey wf' c' = AgentIdentity.autonomyKey wf c
    · have hsame : v.autonomyFor wf c = v.autonomyFor wf' c' := by
        unfold AgentIdentity.autonomyFor
        rw [hkey]
      refine Or.inl ⟨level, hsame.trans hlevel, ?_⟩
      simp [AgentIdentity.autonomyFor, AgentIdentity.setAutonomy, columnAgent, hkey]
    · refine Or.inr ?_
      simp [AgentIdentity.autonomyFor, AgentIdentity.setAutonomy, columnAgent, withIncident,
        Dict.get?_set_ne _ _ hkey]

theorem OnLadder.afterIncident {wf wf' : String} {c c' : AuthorityClass} {v x : AgentIdentity}
    (h : OnLadder wf c v) (hx : afterIncident wf' c' v = some x) :
    OnLadder wf c (columnAgent x) := by
  rcases autonomyFor_afterIncident (v := v) hx with ⟨level, _, hlevel⟩ | hsame
  · exact ⟨_, hlevel⟩
  · rw [OnLadder, hsame]
    exact h

/-- No incident brings a level back on the ladder. -/
theorem onLadder_of_afterIncident {wf wf' : String} {c c' : AuthorityClass} {v x : AgentIdentity}
    (h : OnLadder wf c (columnAgent x)) (hx : EarnedAutonomy.afterIncident wf' c' v = some x) :
    OnLadder wf c v := by
  rcases autonomyFor_afterIncident (v := v) hx with ⟨level, hlevel, _⟩ | hsame
  · exact ⟨_, hlevel⟩
  · rw [OnLadder, hsame] at h
    exact h

theorem Reduced.afterIncident {wf wf' : String} {c c' : AuthorityClass} {v x : AgentIdentity}
    (h : Reduced wf c v) (hx : EarnedAutonomy.afterIncident wf' c' v = some x) :
    Reduced wf c (columnAgent x) := by
  obtain ⟨level, hlevel, hle⟩ := h
  rcases autonomyFor_afterIncident (v := v) hx with ⟨level', _, hcapped⟩ | hsame
  · refine ⟨_, hcapped, ?_⟩
    rw [AutonomyLevel.value_cappedAt]
    omega
  · exact ⟨level, hsame.trans hlevel, hle⟩

/-- An incident lowers its own level. -/
theorem reduced_afterIncident {wf : String} {c : AuthorityClass} {v x : AgentIdentity}
    (h : EarnedAutonomy.afterIncident wf c v = some x) : Reduced wf c (columnAgent x) := by
  unfold EarnedAutonomy.afterIncident at h
  split at h <;> cases h
  rename_i current hlevel
  refine ⟨current.cappedAt .executeWithApproval, AgentIdentity.autonomyFor_setAutonomy _ wf c _, ?_⟩
  rw [AutonomyLevel.value_cappedAt]
  omega

theorem incidentCount_afterIncident {wf : String} {c : AuthorityClass} {v x : AgentIdentity}
    (h : afterIncident wf c v = some x) : (columnAgent x).incidentCount = v.incidentCount + 1 := by
  unfold afterIncident at h
  split at h <;> cases h
  rfl

omit [Arithmetic F] [CapabilityStateStore C] [AuditLog L] in
/-- What one incident after another makes of an agent. -/
theorem sequence_incidents {p : CpPool F SqlStore C L} {a : String} (hall : AllIncidents a p)
    (order : List Nat) (horder : ∀ i ∈ order, ∃ r, request? p i = some r) (v : AgentIdentity)
    (hladder : ∀ i ∈ order, ∀ r wf c, request? p i = some r →
      incidentScope? r.2 = some (a, wf, c) → OnLadder wf c v) :
    (Register.sequence (incidentStep p) v order).incidentCount = v.incidentCount + order.length ∧
      (∀ wf c, Reduced wf c v → Reduced wf c (Register.sequence (incidentStep p) v order)) ∧
      ∀ i ∈ order, ∀ r wf c, request? p i = some r →
        incidentScope? r.2 = some (a, wf, c) →
          Reduced wf c (Register.sequence (incidentStep p) v order) := by
  induction order generalizing v with
  | nil => simp [Register.sequence]
  | cons i order ih =>
    obtain ⟨r, hr⟩ := horder i List.mem_cons_self
    obtain ⟨wf, c, hscope⟩ := hall i r hr
    obtain ⟨x, hx⟩ := afterIncident_isSome.mpr (hladder i List.mem_cons_self r wf c hr hscope)
    have hstep : incidentStep p i v = some (columnAgent x) := by
      simp only [incidentStep, hr, Option.bind_some, hscope, hx, Option.map_some]
    have hseq : Register.sequence (incidentStep p) v (i :: order) =
        Register.sequence (incidentStep p) (columnAgent x) order := by
      rw [Register.sequence, List.foldl_cons, hstep]
      rfl
    obtain ⟨hcount, hreduced, hothers⟩ := ih (fun j hj => horder j (List.mem_cons_of_mem _ hj))
      (columnAgent x) fun j hj r wf' c' hr hs =>
        (hladder j (List.mem_cons_of_mem _ hj) r wf' c' hr hs).afterIncident hx
    rw [hseq]
    refine ⟨?_, fun wf' c' h => hreduced wf' c' (h.afterIncident hx), ?_⟩
    · rw [hcount, incidentCount_afterIncident hx, List.length_cons]
      push_cast
      omega
    · intro j hj r' wf' c' hr' hs'
      rcases List.mem_cons.mp hj with rfl | hj
      · rw [hr] at hr'
        cases hr'
        rw [hscope] at hs'
        cases hs'
        exact hreduced wf c (reduced_afterIncident hx)
      · exact hothers j hj r' wf' c' hr' hs'

/-! ## The result -/

/-- The row is what the incidents make of the agent in some order, it has counted all of
them, and every named level is reduced. -/
def SequentialIncidents (agent : AgentIdentity) (p : CpPool F SqlStore C L) : Prop :=
  ∃ order final, order.Perm (List.range p.threads.length) ∧
    getAgent agent.agentId p.state.store = some final ∧
    final = Register.sequence (incidentStep p) agent order ∧
    final.incidentCount = agent.incidentCount + p.threads.length ∧
    ∀ i r wf c, request? p i = some r → incidentScope? r.2 = some (agent.agentId, wf, c) →
      Reduced wf c final

/-- The stored level of every scope that is named is one of the ladder. -/
def NamedOnLadder (agent : AgentIdentity) (p : CpPool F SqlStore C L) : Prop :=
  ∀ i r wf c, request? p i = some r → incidentScope? r.2 = some (agent.agentId, wf, c) →
    OnLadder wf c agent

/-- When all incidents of an agent are over, its row is that of a sequential order exactly
if all named levels were on the ladder and no one wrote between the read and the write of
another. -/
theorem incidents_are_sequential_iff {w : World SqlStore C L} {agent : AgentIdentity}
    (hagent : getAgent agent.agentId w.store = some agent) {p : CpPool F SqlStore C L}
    (h : (cp.system o).Leads Unguarded (fresh w) p) (hall : AllIncidents agent.agentId p)
    (hover : ∀ i, nextCall? p i = none) :
    SequentialIncidents agent p ↔
      NamedOnLadder agent p ∧ Undisturbed (accesses agent.agentId p.log) := by
  obtain ⟨hwf, hrow, _⟩ := wellFormed_of_leads hagent h hall
  have hraised : ∀ i v v', incidentStep p i v = some v' →
      v'.incidentCount = v.incidentCount + 1 := by
    intro i v v' hstep
    obtain ⟨wf, c, x, hx, rfl⟩ := exists_of_incidentStep hstep
    exact incidentCount_afterIncident hx
  have hstarted : ∀ i ∈ writers (accesses agent.agentId p.log),
      i ∈ List.range p.threads.length := by
    intro i hi
    obtain ⟨x, _, hx⟩ := mem_writers_accesses.mp hi
    exact List.mem_range.mpr (h.faithful.2 _ hx)
  constructor
  · rintro ⟨order, final, hperm, hfinal, hseq, hcount, hlevels⟩
    rw [hrow] at hfinal
    cases hfinal
    -- as many have written as were started
    have hle := hwf.measure_le hraised List.prefix_rfl
    have hmost := hwf.nodup_writers.length_le_of_subset hstarted
    rw [List.length_range] at hmost
    refine ⟨fun i r wf c hr hs => ?_, (hwf.undisturbed_iff hraised).mpr (by omega)⟩
    obtain ⟨level, hlevel, _⟩ := hlevels i r wf c hr hs
    refine (hwf.invariant (I := fun v => OnLadder wf c v → OnLadder wf c agent) id ?_).1
      ⟨level, hlevel⟩
    intro j v v' hstep hv hv'
    obtain ⟨wf', c', x, hx, rfl⟩ := exists_of_incidentStep hstep
    exact hv (onLadder_of_afterIncident hv' hx)
  · rintro ⟨hladder, hun⟩
    have hall' : ∀ i ∈ List.range p.threads.length,
        i ∈ writers (accesses agent.agentId p.log) := by
      intro i hi
      obtain ⟨r, hr⟩ := exists_request?_iff.mpr (List.mem_range.mp hi)
      rcases written_of_over hagent h hall hover hr with hwritten | ⟨v, hread, hnone⟩
      · exact hwritten
      · -- the level it has read is on the ladder, so it does not raise
        obtain ⟨wf, c, hscope⟩ := hall i r hr
        have hv : OnLadder wf c v := by
          refine (hwf.invariant (I := OnLadder wf c) (hladder i r wf c hr hscope) ?_).2 i v hread
          intro j u u' hstep hu
          obtain ⟨wf', c', x, hx, rfl⟩ := exists_of_incidentStep hstep
          exact hu.afterIncident hx
        obtain ⟨x, hx⟩ := afterIncident_isSome.mpr hv
        simp only [incidentStep, hr, Option.bind_some, hscope, hx, Option.map_some,
          reduceCtorEq] at hnone
    have hperm : (writers (accesses agent.agentId p.log)).Perm (List.range p.threads.length) :=
      (List.perm_ext_iff_of_nodup hwf.nodup_writers List.nodup_range).mpr fun i =>
        ⟨hstarted i, hall' i⟩
    have hseq := hwf.current_eq_sequence hun
    obtain ⟨hcount, _, hlevels⟩ := sequence_incidents hall
      (writers (accesses agent.agentId p.log))
      (fun i hi => exists_request?_iff.mpr (List.mem_range.mp (hstarted i hi))) agent
      fun i _ => hladder i
    rw [hperm.length_eq, List.length_range] at hcount
    refine ⟨_, _, hperm, hrow, hseq, ?_, fun i r wf c hr hs => ?_⟩
    · rw [hseq]
      exact hcount
    · rw [hseq]
      have hi : i ∈ List.range p.threads.length :=
        List.mem_range.mpr (exists_request?_iff.mp ⟨r, hr⟩)
      exact hlevels i (hall' i hi) r wf c hr hs

end

/-! ## Two incidents -/

/-- An agent that may execute with sampling in two scopes. -/
def trustedAgent : AgentIdentity :=
  (demoAgent.setAutonomy "claims" .modifyInternalRecord .executeWithSampling).setAutonomy "claims"
    .draft .executeWithSampling

/-- The database with the agent. -/
def trustedWorld : SqlWorld :=
  demoSystem.final (World.initial _ _ _) [(0, .registerAgent trustedAgent)]

/-- Two replicas record an incident each. -/
def twoIncidents : List (Move (Nat × Command)) :=
  [.start (0, .recordIncident "agent" "claims" .modifyInternalRecord (.utf8 "wrong sum") "human"),
    .start (1, .recordIncident "agent" "claims" .draft (.utf8 "wrong tone") "human")]

/-- Both read the row before one of them writes it. -/
def lostPool : CpPool Dyadic SqlStore SqlCapabilityStore SqlAuditLedger :=
  demoSystem.schedule (fresh trustedWorld) (twoIncidents ++ List.replicate 3 (.advance 0) ++
    List.replicate 8 (.advance 1) ++ List.replicate 5 (.advance 0))

/-- One after the other. -/
def serialPool : CpPool Dyadic SqlStore SqlCapabilityStore SqlAuditLedger :=
  demoSystem.schedule (fresh trustedWorld) (twoIncidents ++ List.replicate 8 (.advance 0) ++
    List.replicate 8 (.advance 1))

/-- The thread is over, and it was an incident of the agent. -/
def overIncident (t : Thread PyError (Nat × Command) Res (Answer Dyadic)) : Bool :=
  (match t.body with
    | .call _ _ => false
    | _ => true) && (incidentScope? t.request.2).any fun s => s.1 = "agent"

theorem over_of_overIncident
    {p : CpPool Dyadic SqlStore SqlCapabilityStore SqlAuditLedger}
    (h : p.threads.all overIncident = true) :
    AllIncidents "agent" p ∧ ∀ i, nextCall? p i = none := by
  rw [List.all_eq_true] at h
  refine ⟨fun i r hr => ?_, fun i => ?_⟩
  · obtain ⟨body, hbody⟩ := request?_eq_some_iff.mp hr
    have hthread := h _ (List.mem_of_getElem? hbody)
    simp only [overIncident, Bool.and_eq_true, Option.any_eq_true] at hthread
    obtain ⟨_, ⟨a, wf, c⟩, hscope, ha⟩ := hthread
    obtain rfl : a = "agent" := of_decide_eq_true ha
    exact ⟨wf, c, hscope⟩
  · cases hnext : nextCall? p i with
    | none => rfl
    | some op =>
      obtain ⟨r, next, hthread⟩ := nextCall?_eq_some_iff.mp hnext
      have hover := h _ (List.mem_of_getElem? hthread)
      simp [overIncident] at hover

theorem trustedWorld_agent :
    getAgent trustedAgent.agentId trustedWorld.store = some trustedAgent := rfl

/-- The row that the first read is written back over what the second wrote. -/
theorem second_incident_is_lost :
    demoSystem.Leads Unguarded (fresh trustedWorld) lostPool ∧
      getAgent trustedAgent.agentId trustedWorld.store = some trustedAgent ∧
      AllIncidents trustedAgent.agentId lostPool ∧ (∀ i, nextCall? lostPool i = none) ∧
      (getAgent trustedAgent.agentId lostPool.state.store).map (·.incidentCount) = some 1 ∧
      (getAgent trustedAgent.agentId lostPool.state.store).map (·.autonomyFor "claims" .draft) =
        some (.ok .executeWithSampling) ∧
      ¬ SequentialIncidents trustedAgent lostPool := by
  obtain ⟨hover, hcount, hlevel, hthreads⟩ : lostPool.threads.all overIncident = true ∧
      (getAgent trustedAgent.agentId lostPool.state.store).map (·.incidentCount) = some 1 ∧
      (getAgent trustedAgent.agentId lostPool.state.store).map (·.autonomyFor "claims" .draft) =
        some (.ok .executeWithSampling) ∧
      lostPool.threads.length = 2 := by decide +kernel
  obtain ⟨hall, hnext⟩ := over_of_overIncident hover
  refine ⟨leads_unguarded _ _, trustedWorld_agent, hall, hnext, hcount, hlevel, ?_⟩
  rintro ⟨_, final, _, hfinal, _, hsum, _⟩
  rw [hfinal, Option.map_some, Option.some.injEq] at hcount
  rw [hcount, hthreads] at hsum
  have hzero : trustedAgent.incidentCount = 0 := rfl
  omega

/-- One after the other, both are counted. -/
theorem serial_incidents_are_kept : SequentialIncidents trustedAgent serialPool := by
  have hleads : demoSystem.Leads Unguarded (fresh trustedWorld) serialPool := leads_unguarded _ _
  obtain ⟨hover, hcount, hwriters⟩ : serialPool.threads.all overIncident = true ∧
      (getAgent trustedAgent.agentId serialPool.state.store).map (·.incidentCount) = some 2 ∧
      (writers (accesses trustedAgent.agentId serialPool.log)).length = 2 := by
    decide +kernel
  obtain ⟨hall, hnext⟩ := over_of_overIncident hover
  obtain ⟨hwf, hrow, _⟩ := wellFormed_of_leads trustedWorld_agent hleads hall
  apply (incidents_are_sequential_iff trustedWorld_agent hleads hall hnext).mpr
  constructor
  · intro i r wf c _ _
    exact ((onLadder_of_currentAutonomy (v := demoAgent) rfl wf c).setAutonomy _).setAutonomy _
  · rw [hrow, Option.map_some, Option.some.injEq] at hcount
    apply (hwf.undisturbed_iff (μ := (·.incidentCount)) _).mpr
    · rw [hcount, hwriters]
      rfl
    · intro i v v' hstep
      obtain ⟨wf, c, x, hx, rfl⟩ := exists_of_incidentStep hstep
      exact incidentCount_afterIncident hx

end EarnedAutonomy
