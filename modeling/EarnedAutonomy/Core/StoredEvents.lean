import EarnedAutonomy.Core.TrustRecords

/-!
# Stored events

The stores keep an event under the id that its proposer has chosen, and a later
proposal under the same id replaces it.  A decision is credited to the event
that is stored when it comes.

* `event_of_serve`: a turn leaves the event of an id alone, or it is a proposal
  under this id that stores its own event.
* `Unreused` is the condition: no proposal that gets as far as storing its event
  replaces an accepted event by another one, or moves a decided event to another
  scope.
* `proposed_events_are_kept` is the result under this condition.
  `reused_id_replaces_the_event` is a run that breaks it.
-/

namespace EarnedAutonomy

open Atomic Service Prog Calendar Store LawfulStore ControlPlane
open DelegationMemory (key)

/-! ## What a turn does to events -/

section

variable {P : Primitives} {F : Type} {cp : ControlPlane P F} {o : Oracle}
variable {S C L : Type} [Store S] [LawfulStore S] [CapabilityStateStore C] [AuditLog L]

/-- The proposal gets as far as storing its event. -/
def ControlPlane.Reaches (cp : ControlPlane P F) (s : S) (e : WorkflowEvent) : Prop :=
  ∃ agent, getAgent e.agentId s = some agent ∧ cp.Authentic agent e ∧
    (view s).nonces e.agentId e.nonce = false

/-- Either the proposal leaves the events and raises, or it stores its event. -/
theorem ensures_proposal_events [LawfulAuditLog L] [LawfulRecorder L] {keys : KeyPair P}
    {replica : Nat} (hstrict : cp.config.strictMode = true) (e : WorkflowEvent)
    (w : World S C L) :
    (cp.proposeEvent e).Ensures (worldHandler o keys replica) w fun result w' =>
      ((view w'.store).events = (view w.store).events ∧ ∃ err, result = .error err) ∨
        cp.Reaches w.store e ∧ ∃ agent, getAgent e.agentId w.store = some agent ∧
          StoredAs e agent w'.store := by
  cases hknown : getAgent e.agentId w.store with
  | none =>
    have hproposer : (cp.proposer e).run (worldHandler o keys replica) w =
        (.error (.authenticationError ("unknown agent_id: " ++ e.agentId)), w) := by
      unfold proposer
      simp only [perform_bind, run_call, worldHandler, hknown, hstrict, if_true]
      rfl
    have hauth : (cp.authenticate e).run (worldHandler o keys replica) w =
        (.error (.authenticationError ("unknown agent_id: " ++ e.agentId)), w) := by
      unfold authenticate
      rw [run_bind, hproposer]
    unfold proposeEvent
    rw [ensures_bind_error hauth]
    exact Or.inl ⟨rfl, _, rfl⟩
  | some agent =>
    unfold proposeEvent
    rcases run_authenticate cp o keys replica hknown with ⟨hauthentic, hrun⟩ | ⟨hnot, err, hrun⟩
    · rw [ensures_bind_ok hrun]
      cases hclaimed : (view w.store).nonces e.agentId e.nonce with
      | true =>
        obtain ⟨err, w', hassess, hunchanged⟩ := run_assess_claimed cp o keys replica agent
          hclaimed
        rw [ensures_bind_error hassess]
        exact Or.inl ⟨hunchanged.events, err, rfl⟩
      | false =>
        refine (run_assess_conclude cp o keys replica agent hclaimed).mono
          fun result w' hconcluded => Or.inr ?_
        obtain ⟨_, hstored, _⟩ := hconcluded
        exact ⟨⟨agent, hknown, hauthentic, hclaimed⟩, agent, rfl, hstored⟩
    · rw [ensures_bind_error hrun]
      exact Or.inl ⟨rfl, err, rfl⟩

/-- Only a proposal stores an event, and only under its own id. -/
theorem StoreStep.events_ne {cmd : Command} {u u' : StoreView} (h : StoreStep S cp cmd u u')
    {i : String} (hi : ∀ e, cmd = .proposeEvent e → e.eventId ≠ i) :
    u'.events i = u.events i := by
  cases h with
  | storeEvent hsame =>
    rw [StoreView.events_setEvent, if_neg]
    rw [hsame.eventId]
    exact fun h => hi _ rfl h.symm
  | _ => rfl

variable [Arithmetic F] [LawfulAuditLog L] [LawfulRecorder L]

/-- What a turn with a proposal does to the events. -/
theorem proposal_of_serve (hstrict : cp.config.strictMode = true) {y : CpTurn F S C L}
    (hy : y = (cp.system o).serve y.before y.request) {e : WorkflowEvent}
    (hcmd : y.request.2 = .proposeEvent e) :
    ((view y.after.store).events = (view y.before.store).events ∧ ∃ err, y.result = .error err) ∨
      cp.Reaches y.before.store e ∧ ∃ agent, getAgent e.agentId y.before.store = some agent ∧
        StoredAs e agent y.after.store := by
  obtain ⟨w, ⟨replica, cmd⟩, calls, result, w'⟩ := y
  obtain rfl : cmd = .proposeEvent e := hcmd
  refine (cp.system o).of_ensures hy (Q := fun result w' =>
    ((view w'.store).events = (view w.store).events ∧ ∃ err, result = .error err) ∨
      cp.Reaches w.store e ∧ ∃ agent, getAgent e.agentId w.store = some agent ∧
        StoredAs e agent w'.store) ?_
  show ((cp.proposeEvent e) >>= fun p => (.done (.packet p) : CpProg (Answer F))).Ensures
    (worldHandler o cp.ledgerKeys replica) w _
  rw [ensures_bind]
  refine (ensures_proposal_events hstrict e w).mono fun result w' h => ?_
  cases result with
  | error err => exact h.imp (fun h => ⟨h.1, err, rfl⟩) id
  | ok p =>
    rcases h with ⟨_, err, herr⟩ | hstored
    · cases herr
    · exact Or.inr hstored

/-- A turn leaves the event of an id alone, or is a proposal that stores its own. -/
theorem event_of_serve (hstrict : cp.config.strictMode = true) {y : CpTurn F S C L}
    (hy : y = (cp.system o).serve y.before y.request) (i : String) :
    (view y.after.store).events i = (view y.before.store).events i ∨
      ∃ e agent, y.request.2 = .proposeEvent e ∧ e.eventId = i ∧
        cp.Reaches y.before.store e ∧ StoredAs e agent y.after.store := by
  have hsteps := storeSteps_of_serve hy
  obtain ⟨w, ⟨replica, cmd⟩, calls, result, w'⟩ := y
  -- an id that the command does not store stays
  have hother (hi : ∀ e, cmd = .proposeEvent e → e.eventId ≠ i) :
      (view w'.store).events i = (view w.store).events i :=
    hsteps.invariant (I := fun v => v.events i = (view w.store).events i)
      (fun u u' hstep hu => (hstep.events_ne hi).trans hu) rfl
  cases cmd with
  | proposeEvent e =>
    by_cases hi : e.eventId = i
    · rcases proposal_of_serve hstrict hy rfl with ⟨hsame, _⟩ | ⟨hreaches, agent, _, hstored⟩
      · exact Or.inl (congrFun hsame i)
      · exact Or.inr ⟨e, agent, rfl, hi, hreaches, hstored⟩
    · refine Or.inl (hother fun e' h => ?_)
      cases h
      exact hi
  | _ =>
    refine Or.inl (hother ?_)
    rintro e ⟨⟩

/-! ## Accepted proposals and decisions -/

/-- The event of an accepted proposal is in the store. -/
theorem Accepted.stored {y : CpTurn F S C L} {e : WorkflowEvent} {p : Packet}
    (hacc : Accepted y e p) (hy : y = (cp.system o).serve y.before y.request)
    (hstrict : cp.config.strictMode = true) : StoredAs e p.agent y.after.store := by
  have hfollows := (cp.system o).follows_serve y.before y.request
  have hanswers := (cp.system o).answers_serve y.before y.request
  rw [← hy] at hfollows hanswers
  have hp' := hacc.follows hfollows
  obtain ⟨w, ⟨replica, cmd⟩, calls, result, w'⟩ := y
  obtain ⟨rfl, rfl⟩ := hacc
  have hknown := (finds_of_proposal hp' hanswers (Or.inl hstrict)).known
  rcases proposal_of_serve hstrict hy rfl with ⟨_, err, herr⟩ | ⟨_, agent, hagent, hstored⟩
  · cases herr
  · rw [hknown] at hagent
    cases hagent
    exact hstored

/-! ## Runs -/

/-- The same proposal, apart from what a second one has to change. -/
def WorkflowEvent.SameContent (e e' : WorkflowEvent) : Prop :=
  e' = { e with nonce := e'.nonce, signature := e'.signature, timestamp := e'.timestamp }

/-- What is stored under the id of the event has its content. -/
def KeptAs (e : WorkflowEvent) (s : S) : Prop :=
  ∃ e' e'' agent, e.SameContent e' ∧ getEvent e.eventId s = some e'' ∧
    (e'' = keptEvent (S := S) e' ∨ e'' = withApprovedWorkflows e' agent)

/-- The event that is stored under the id has the scope of the other one. -/
def ScopeKept (e : WorkflowEvent) (i : String) (s : S) : Prop :=
  ∃ e', getEvent i s = some e' ∧ e'.agentId = e.agentId ∧ e'.workflowId = e.workflowId ∧
    e'.authorityRequested = e.authorityRequested

/-- No proposal that gets as far as storing its event replaces the event of an accepted
one by another event, or moves the event of a decision to another scope. -/
structure Unreused (cp : ControlPlane P F) (turns : List (CpTurn F S C L)) : Prop where
  accepted : ∀ {i j : Nat} {x y : CpTurn F S C L} {e e' : WorkflowEvent} {p : Packet}, i < j →
    turns[i]? = some x → turns[j]? = some y → Accepted x e p → y.request.2 = .proposeEvent e' →
    cp.Reaches y.before.store e' → e'.eventId = e.eventId → e.SameContent e'
  decided : ∀ {i j : Nat} {x y : CpTurn F S C L} {d : ApprovalDecision} {e' : WorkflowEvent},
    i < j → turns[i]? = some x → turns[j]? = some y → Decided x d →
    y.request.2 = .proposeEvent e' → cp.Reaches y.before.store e' → e'.eventId = d.eventId →
    ScopeKept e' e'.eventId y.before.store

theorem StoredAs.keptAs {e e' : WorkflowEvent} {agent : AgentIdentity} {s : S}
    (h : StoredAs e' agent s) (hsame : e.SameContent e') : KeptAs e s := by
  obtain ⟨e'', hstored, hkept⟩ := h
  have hid : e'.eventId = e.eventId := by rw [hsame]
  rw [hid] at hstored
  exact ⟨e', e'', agent, hsame, (getEvent_eq _ _).trans hstored, hkept⟩

theorem KeptAs.scopeKept {e : WorkflowEvent} {s : S} (h : KeptAs e s) :
    ScopeKept e e.eventId s := by
  obtain ⟨e', e'', agent, hsame, hstored, hkept⟩ := h
  have hscope : e'.agentId = e.agentId ∧ e'.workflowId = e.workflowId ∧
      e'.authorityRequested = e.authorityRequested := by
    rw [hsame]
    exact ⟨rfl, rfl, rfl⟩
  refine ⟨e'', hstored, ?_⟩
  rcases hkept with rfl | rfl
  · rw [(eventScope_kept e').2.1, (eventScope_kept e').2.2.1, (eventScope_kept e').2.2.2]
    exact hscope
  · exact hscope

theorem StoredAs.scopeKept {e : WorkflowEvent} {agent : AgentIdentity} {s : S}
    (h : StoredAs e agent s) : ScopeKept e e.eventId s :=
  (h.keptAs (e := e) rfl).scopeKept

variable {turns : List (CpTurn F S C L)} {w : World S C L}

/-- A later turn keeps the event of an accepted proposal. -/
theorem Unreused.keptAs_after (hreuse : Unreused cp turns) (hstrict : cp.config.strictMode = true)
    {i m : Nat} {y z : CpTurn F S C L} {e : WorkflowEvent} {p : Packet} (him : i < m)
    (hi : turns[i]? = some y) (hm : turns[m]? = some z) (hacc : Accepted y e p)
    (hz : z = (cp.system o).serve z.before z.request) (hbefore : KeptAs e z.before.store) :
    KeptAs e z.after.store := by
  rcases event_of_serve hstrict hz e.eventId with hsame | ⟨e', agent, hcmd, hid, hreaches, hstored⟩
  · obtain ⟨e', e'', agent, hcontent, hstored, hkept⟩ := hbefore
    refine ⟨e', e'', agent, hcontent, ?_, hkept⟩
    rw [getEvent_eq] at hstored ⊢
    rw [hsame, hstored]
  · exact hstored.keptAs (hreuse.accepted him hi hm hacc hcmd hreaches hid)

/-- A later turn keeps the scope of a decided event. -/
theorem Unreused.scopeKept_after (hreuse : Unreused cp turns)
    (hstrict : cp.config.strictMode = true) {i m : Nat} {y z : CpTurn F S C L} {e : WorkflowEvent}
    {d : ApprovalDecision} (him : i < m) (hi : turns[i]? = some y) (hm : turns[m]? = some z)
    (hd : Decided y d) (hz : z = (cp.system o).serve z.before z.request)
    (hbefore : ScopeKept e d.eventId z.before.store) : ScopeKept e d.eventId z.after.store := by
  obtain ⟨e₀, hstored₀, hagent₀, hworkflow₀, hauthority₀⟩ := hbefore
  rcases event_of_serve hstrict hz d.eventId with hsame | ⟨e', agent, hcmd, hid, hreaches, hstored⟩
  · refine ⟨e₀, ?_, hagent₀, hworkflow₀, hauthority₀⟩
    rw [getEvent_eq] at hstored₀ ⊢
    rw [hsame, hstored₀]
  · -- the new event has the scope of the one it replaces
    obtain ⟨e₁, hstored₁, hagent₁, hworkflow₁, hauthority₁⟩ :=
      hreuse.decided him hi hm hd hcmd hreaches hid
    rw [hid, hstored₀] at hstored₁
    cases hstored₁
    obtain ⟨e₂, hstored₂, hagent₂, hworkflow₂, hauthority₂⟩ := hstored.scopeKept
    rw [hid] at hstored₂
    exact ⟨e₂, hstored₂, hagent₂.trans (hagent₁.symm.trans hagent₀),
      hworkflow₂.trans (hworkflow₁.symm.trans hworkflow₀),
      hauthority₂.trans (hauthority₁.symm.trans hauthority₀)⟩

/-- A decision leaves the events. -/
theorem Decided.events {y : CpTurn F S C L} {d : ApprovalDecision} (hd : Decided y d)
    (hy : y = (cp.system o).serve y.before y.request) (hstrict : cp.config.strictMode = true) :
    (view y.after.store).events = (view y.before.store).events := by
  funext i
  rcases event_of_serve hstrict hy i with hsame | ⟨e, _, hcmd, _⟩
  · exact hsame
  · rw [hd.request] at hcmd
    cases hcmd

/-- An event is decided once on a replica. -/
theorem Unreused.not_decided_again (hreuse : Unreused cp turns)
    (h : (cp.system o).Runs (World.initial S C L) turns w) (hstrict : cp.config.strictMode = true)
    {i j : Nat} {x y : CpTurn F S C L} {d d' : ApprovalDecision} (hij : i < j)
    (hi : turns[i]? = some x) (hj : turns[j]? = some y) (hx : Decided x d) (hy : Decided y d')
    (hid : d'.eventId = d.eventId) : x.request.1 ≠ y.request.1 := by
  intro hreplica
  have hservex := (h.getElem? hi).2.1
  have hservey := (h.getElem? hj).2.1
  obtain ⟨e, hstored, hdecides⟩ := hx.decides hservex
  obtain ⟨e', hstored', hdecides'⟩ := hy.decides hservey
  -- both decisions are credited under one key
  have hkey : key e'.agentId e'.workflowId e'.authorityRequested =
      key e.agentId e.workflowId e.authorityRequested := by
    have hafter : ScopeKept e d.eventId x.after.store := by
      refine ⟨e, ?_, rfl, rfl, rfl⟩
      rw [getEvent_eq, hx.events hservex hstrict, ← getEvent_eq, hstored]
    obtain ⟨e₁, hstored₁, hagent, hworkflow, hauthority⟩ :=
      h.invariant_between (I := fun w => ScopeKept e d.eventId w.store) hij hi hj hafter
        fun m z hm _ hz hserve hbefore =>
          hreuse.scopeKept_after hstrict hm hi hz hx hserve hbefore
    rw [← hid, hstored'] at hstored₁
    cases hstored₁
    rw [hagent, hworkflow, hauthority]
  rw [hkey, hid] at hdecides'
  -- the first one stays in the memory of the replica
  have hmember : d.eventId ∈ (y.before.memories y.request.1).decided
      (key e.agentId e.workflowId e.authorityRequested) := by
    refine h.invariant_between (I := fun w => d.eventId ∈ (w.memories y.request.1).decided
      (key e.agentId e.workflowId e.authorityRequested)) hij hi hj ?_ fun m z _ _ hz _ hbefore => ?_
    · rw [← hreplica, decided_answers (h.answers hi)]
      exact List.mem_append_right _ hdecides
    · have hone : (cp.system o).Runs z.before [z] z.after := by
        rw [(h.getElem? hz).2.1]
        exact Runs.nil.snoc z.request
      rw [(memory_of_runs hone y.request.1 _).2]
      exact List.mem_append_left _ hbefore
  have hnodup : ((y.after.memories y.request.1).decided
      (key e.agentId e.workflowId e.authorityRequested)).Nodup := by
    have hrun := (h.getElem? hj).1.snoc y.request
    rw [← hservey] at hrun
    exact nodup_decided_of_runs hrun List.nodup_nil
  rw [decided_answers (h.answers hj)] at hnodup
  exact List.disjoint_of_nodup_append hnodup hmember hdecides'

/-- In strict mode, as long as no proposal that gets as far as storing its event replaces
an accepted or a decided one: an accepted event stays in the store with its content, a
decision for it is credited to its scope, and no event is decided twice on a replica. -/
theorem proposed_events_are_kept (h : (cp.system o).Runs (World.initial S C L) turns w)
    (hstrict : cp.config.strictMode = true) (hreuse : Unreused cp turns) :
    (∀ (i : Nat) y e p, turns[i]? = some y → Accepted y e p →
      KeptAs e y.after.store ∧ KeptAs e w.store ∧
      ∀ (j : Nat) z, i < j → turns[j]? = some z → KeptAs e z.before.store ∧
        ∀ d a wf c d' r, z.request.2 = .submitDecision d → d.eventId = e.eventId →
          ⟨.applyDecision a wf c d', r⟩ ∈ z.calls →
          a = e.agentId ∧ wf = e.workflowId ∧ c = e.authorityRequested ∧ d' = d) ∧
    ∀ (i j : Nat) x y d d', turns[i]? = some x → turns[j]? = some y → Decided x d →
      Decided y d' → d.eventId = d'.eventId → x.request.1 = y.request.1 → i = j := by
  refine ⟨fun i y e p hi hacc => ?_, fun i j x y d d' hi hj hx hy hid hreplica => ?_⟩
  · have hserve := (h.getElem? hi).2.1
    have hkept : KeptAs e y.after.store := (hacc.stored hserve hstrict).keptAs rfl
    have hstep (m : Nat) (z : CpTurn F S C L) (him : i < m) (hm : turns[m]? = some z)
        (hz : z = (cp.system o).serve z.before z.request) :
        KeptAs e z.before.store → KeptAs e z.after.store :=
      hreuse.keptAs_after hstrict him hi hm hacc hz
    refine ⟨hkept, h.invariant_after (I := fun w => KeptAs e w.store) hi hkept hstep, ?_⟩
    intro j z hij hj
    have hbefore : KeptAs e z.before.store :=
      h.invariant_between (I := fun w => KeptAs e w.store) hij hi hj hkept fun m z hm _ =>
        hstep m z hm
    refine ⟨hbefore, fun d a wf c d' r hcmd hid hr => ?_⟩
    obtain ⟨e', hstored, rfl, rfl, rfl, rfl⟩ := applied_under (h.getElem? hj).2.1 hcmd hr
    obtain ⟨e'', hstored', hagent, hworkflow, hauthority⟩ := hbefore.scopeKept
    rw [← hid, hstored] at hstored'
    cases hstored'
    exact ⟨hagent, hworkflow, hauthority, rfl⟩
  · rcases Nat.lt_trichotomy i j with hij | rfl | hji
    · exact absurd hreplica (hreuse.not_decided_again h hstrict hij hi hj hx hy hid.symm)
    · rfl
    · exact absurd hreplica.symm (hreuse.not_decided_again h hstrict hji hj hi hy hx hid)

end

/-! ## Two agents and one id -/

/-- The answer is a packet. -/
def isPacket {F : Type} : Except PyError (Answer F) → Bool
  | .ok (.packet _) => true
  | _ => false

/-- The answer is to a decision. -/
def isDecided {F : Type} : Except PyError (Answer F) → Bool
  | .ok (.decided _) => true
  | _ => false

theorem exists_of_isPacket {F : Type} {r : Except PyError (Answer F)} (h : isPacket r = true) :
    ∃ p, r = .ok (.packet p) := by
  unfold isPacket at h
  split at h
  · exact ⟨_, rfl⟩
  · cases h

theorem exists_of_isDecided {F : Type} {r : Except PyError (Answer F)} (h : isDecided r = true) :
    ∃ d, r = .ok (.decided d) := by
  unfold isDecided at h
  split at h
  · exact ⟨_, rfl⟩
  · cases h

/-- A second agent. -/
def demoIntruder : AgentIdentity :=
  { demoAgent with agentId := "intruder", publicKeyHex := some "other" }

/-- Its proposal, under the id of the first one. -/
def intrudingEvent : WorkflowEvent :=
  { demoEvent true with agentId := "intruder", signature := some "other" }

/-- The first agent proposes and is approved. -/
def approvedDemo : List (Nat × Command) :=
  [(0, .registerAgent demoAgent), (0, .proposeEvent (demoEvent true)),
    (0, .submitDecision (demoDecision []))]

/-- Then the second agent proposes under the same id, and is approved too. -/
def reusedDemo : List (Nat × Command) :=
  approvedDemo ++ [(0, .registerAgent demoIntruder), (0, .proposeEvent intrudingEvent),
    (0, .submitDecision (demoDecision []))]

/-- Whether a turn accepted a proposal or a decision, and whose event it leaves. -/
def summary (y : CpTurn Dyadic SqlStore SqlCapabilityStore SqlAuditLedger) :
    Bool × Bool × Option String :=
  (isPacket y.result, isDecided y.result, (getEvent "evt_1" y.after.store).map (·.agentId))

/-- The accepted event is gone, and its id is decided twice. -/
theorem reused_id_replaces_the_event :
    let turns := demoSystem.history (World.initial _ _ _) reusedDemo
    demoSystem.Runs (World.initial _ _ _) turns
        (demoSystem.final (World.initial _ _ _) reusedDemo) ∧
      demoPlane.config.strictMode = true ∧
      ∃ x p y z, turns[1]? = some x ∧ Accepted x (demoEvent true) p ∧
        turns[2]? = some y ∧ Decided y (demoDecision []) ∧
        turns[5]? = some z ∧ Decided z (demoDecision []) ∧ y.request.1 = z.request.1 ∧
        (getEvent (demoEvent true).eventId z.after.store).map (·.agentId) = some "intruder" := by
  intro turns
  have hsummary : turns.map summary =
      [(false, false, none), (true, false, some "agent"), (false, true, some "agent"),
        (false, false, some "agent"), (true, false, some "intruder"),
        (false, true, some "intruder")] := by
    decide +kernel
  have hturn (i : Nat) (v) (hv : (turns.map summary)[i]? = some v) :
      ∃ y, turns[i]? = some y ∧ reusedDemo[i]? = some y.request ∧ summary y = v := by
    rw [List.getElem?_map, Option.map_eq_some_iff] at hv
    obtain ⟨y, hy, hv⟩ := hv
    exact ⟨y, hy, getElem?_history hy, hv⟩
  rw [hsummary] at hturn
  obtain ⟨x, hx, hxrequest, hxsummary⟩ := hturn 1 _ rfl
  obtain ⟨y, hy, hyrequest, hysummary⟩ := hturn 2 _ rfl
  obtain ⟨z, hz, hzrequest, hzsummary⟩ := hturn 5 _ rfl
  simp only [summary, Prod.mk.injEq] at hxsummary hysummary hzsummary
  have hxcmd : x.request = (0, .proposeEvent (demoEvent true)) := (Option.some.inj hxrequest).symm
  have hycmd : y.request = (0, .submitDecision (demoDecision [])) :=
    (Option.some.inj hyrequest).symm
  have hzcmd : z.request = (0, .submitDecision (demoDecision [])) :=
    (Option.some.inj hzrequest).symm
  obtain ⟨p, hp⟩ := exists_of_isPacket hxsummary.1
  have hydecided : Decided y (demoDecision []) :=
    ⟨congrArg Prod.snd hycmd, exists_of_isDecided hysummary.2.1⟩
  have hzdecided : Decided z (demoDecision []) :=
    ⟨congrArg Prod.snd hzcmd, exists_of_isDecided hzsummary.2.1⟩
  have hreplica : y.request.1 = z.request.1 := by rw [hycmd, hzcmd]
  exact ⟨runs_history _ _, rfl, x, p, y, z, hx, ⟨congrArg Prod.snd hxcmd, hp⟩, hy, hydecided, hz,
    hzdecided, hreplica, hzsummary.2.2⟩

/-- Its proposal, under an id of its own. -/
def otherEvent : WorkflowEvent := { intrudingEvent with eventId := "evt_2" }

/-- The first proposal once more, with a nonce of its own. -/
def repeatedEvent : WorkflowEvent := { demoEvent true with nonce := "n2" }

/-- The first agent proposes and is approved.  Then the second agent proposes under an id
of its own, and the first one repeats its proposal. -/
def keptDemo : List (Nat × Command) :=
  approvedDemo ++ [(0, .registerAgent demoIntruder), (0, .proposeEvent otherEvent),
    (0, .proposeEvent repeatedEvent)]

theorem keptDemo_cases {j : Nat} {r : Nat × Command} (h : keptDemo[j]? = some r) :
    j = 1 ∧ r.2 = .proposeEvent (demoEvent true) ∨ j = 2 ∧ r.2 = .submitDecision (demoDecision []) ∨
      j = 4 ∧ r.2 = .proposeEvent otherEvent ∨ j = 5 ∧ r.2 = .proposeEvent repeatedEvent ∨
      ∃ agent, r.2 = .registerAgent agent := by
  rcases j with _ | _ | _ | _ | _ | _ | j
  · cases h
    exact Or.inr (Or.inr (Or.inr (Or.inr ⟨_, rfl⟩)))
  · cases h
    exact Or.inl ⟨rfl, rfl⟩
  · cases h
    exact Or.inr (Or.inl ⟨rfl, rfl⟩)
  · cases h
    exact Or.inr (Or.inr (Or.inr (Or.inr ⟨_, rfl⟩)))
  · cases h
    exact Or.inr (Or.inr (Or.inl ⟨rfl, rfl⟩))
  · cases h
    exact Or.inr (Or.inr (Or.inr (Or.inl ⟨rfl, rfl⟩)))
  · cases h

/-- The proposals of that run. -/
theorem proposals_of_keptDemo {j : Nat} {r : Nat × Command} {e : WorkflowEvent}
    (h : keptDemo[j]? = some r) (hcmd : r.2 = .proposeEvent e) :
    j = 1 ∧ e = demoEvent true ∨ j = 4 ∧ e = otherEvent ∨ j = 5 ∧ e = repeatedEvent := by
  rcases keptDemo_cases h with ⟨rfl, hr⟩ | ⟨rfl, hr⟩ | ⟨rfl, hr⟩ | ⟨rfl, hr⟩ | ⟨_, hr⟩
  all_goals
    rw [hcmd] at hr
    cases hr
  · exact Or.inl ⟨rfl, rfl⟩
  · exact Or.inr (Or.inl ⟨rfl, rfl⟩)
  · exact Or.inr (Or.inr ⟨rfl, rfl⟩)

theorem decisions_of_keptDemo {j : Nat} {r : Nat × Command} {d : ApprovalDecision}
    (h : keptDemo[j]? = some r) (hcmd : r.2 = .submitDecision d) : d = demoDecision [] := by
  rcases keptDemo_cases h with ⟨rfl, hr⟩ | ⟨rfl, hr⟩ | ⟨rfl, hr⟩ | ⟨rfl, hr⟩ | ⟨_, hr⟩
  all_goals
    rw [hcmd] at hr
    cases hr
  rfl

/-- No id is reused for another event. -/
theorem keptDemo_unreused :
    Unreused demoPlane (demoSystem.history
      (World.initial SqlStore SqlCapabilityStore SqlAuditLedger) keptDemo) := by
  constructor
  · intro i j x y e e' p hij hi hj hacc hcmd _ hid
    have hfirst := proposals_of_keptDemo (getElem?_history hi) hacc.request
    rcases proposals_of_keptDemo (getElem?_history hj) hcmd with
      ⟨rfl, rfl⟩ | ⟨rfl, rfl⟩ | ⟨rfl, rfl⟩
    · omega
    · obtain ⟨_, rfl⟩ : i = 1 ∧ e = demoEvent true := by
        rcases hfirst with hfirst | ⟨rfl, _⟩ | ⟨rfl, _⟩
        · exact hfirst
        · omega
        · omega
      exact absurd hid (by decide)
    · rcases hfirst with ⟨_, rfl⟩ | ⟨_, rfl⟩ | ⟨_, rfl⟩
      · rfl
      · exact absurd hid (by decide)
      · rfl
  · intro i j x y d e' hij hi hj hd hcmd _ hid
    obtain rfl := decisions_of_keptDemo (getElem?_history hi) hd.request
    rcases proposals_of_keptDemo (getElem?_history hj) hcmd with
      ⟨rfl, rfl⟩ | ⟨rfl, rfl⟩ | ⟨rfl, rfl⟩
    · -- nothing is decided before the first proposal
      obtain rfl : i = 0 := by omega
      have hrequest : keptDemo[0]? = some x.request := getElem?_history hi
      have hdecision := hd.request
      rw [← Option.some.inj hrequest] at hdecision
      cases hdecision
    · exact absurd hid (by decide)
    · -- the first proposal is still stored when it is repeated
      have hserve : (demoSystem.history (World.initial SqlStore SqlCapabilityStore SqlAuditLedger)
          keptDemo)[5]? = some (demoSystem.serve
            (demoSystem.final (World.initial _ _ _) (keptDemo.take 5))
              (0, .proposeEvent repeatedEvent)) := rfl
      obtain rfl := Option.some.inj (hj.symm.trans hserve)
      have hstored : (getEvent "evt_1"
          (demoSystem.final (World.initial _ _ _) (keptDemo.take 5)).store).any (fun e =>
            e.agentId = "agent" ∧ e.workflowId = "claims" ∧
              e.authorityRequested = .modifyInternalRecord) = true := by
        decide +kernel
      obtain ⟨e, he, hscope⟩ := (Option.any_eq_true _ _).mp hstored
      exact ⟨e, he, of_decide_eq_true hscope⟩

/-- The event stays while there are other proposals, and while it is repeated. -/
theorem approved_event_is_kept :
    let turns := demoSystem.history (World.initial _ _ _) keptDemo
    let w : SqlWorld := demoSystem.final (World.initial _ _ _) keptDemo
    (∃ y p, turns[1]? = some y ∧ Accepted y (demoEvent true) p) ∧
      (∃ y p, turns[4]? = some y ∧ Accepted y otherEvent p) ∧
      (∃ y p, turns[5]? = some y ∧ Accepted y repeatedEvent p) ∧
      KeptAs (demoEvent true) w.store := by
  intro turns w
  have haccepted (first rest : List (Nat × Command)) (e : WorkflowEvent)
      (hsplit : first ++ (0, .proposeEvent e) :: rest = keptDemo)
      (hpacket : isPacket (demoSystem.serve (demoSystem.final (World.initial _ _ _) first)
        (0, .proposeEvent e)).result = true) :
      ∃ y p, turns[first.length]? = some y ∧ Accepted y e p := by
    obtain ⟨p, hp⟩ := exists_of_isPacket hpacket
    refine ⟨_, p, ?_, rfl, hp⟩
    show (demoSystem.history (World.initial _ _ _) keptDemo)[first.length]? = _
    rw [← hsplit]
    exact getElem?_history_append _ first _ rest
  obtain ⟨y, p, hy, hacc⟩ := haccepted (keptDemo.take 1) _ (demoEvent true) rfl (by decide +kernel)
  have hother := haccepted (keptDemo.take 4) _ otherEvent rfl (by decide +kernel)
  have hrepeated := haccepted (keptDemo.take 5) _ repeatedEvent rfl (by decide +kernel)
  have hall := proposed_events_are_kept (runs_history _ _) rfl keptDemo_unreused
  exact ⟨⟨y, p, hy, hacc⟩, hother, hrepeated, (hall.1 1 y _ p hy hacc).2.1⟩

end EarnedAutonomy
