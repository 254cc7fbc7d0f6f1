import EarnedAutonomy.Core.Approvals
import EarnedAutonomy.Core.Proposals

/-!
# What a decision comes to

`submit_decision` counts in the middle, and asks for a recommendation afterwards.

* `refused` is a `ControlPlaneError`, of any of its classes.
* `EventsKnown`: the agent of a stored event is registered (`eventsKnown_of_runs`), so the
  recommendation finds it.
* `ensures_vetting`: a decision is refused and nothing is changed, or it is vetted and the
  statistics move by that decision alone.
* `submitDecision_returns`: what is vetted returns, unless an append raises.
-/

namespace EarnedAutonomy

open Atomic Service Prog OrderedDict Calendar Store LawfulStore ControlPlane
open DelegationMemory (key)

/-! ## Refusals -/

/-- `ControlPlaneError` and the classes under it. -/
def PyError.refusal : PyError → Bool
  | .controlPlaneError _ | .authenticationError _ | .separationOfDutiesError _ => true
  | _ => false

/-- A `ControlPlaneError` was raised. -/
def refused {α : Type} : Except PyError α → Bool
  | .ok _ => false
  | .error err => err.refusal

@[simp] theorem refused_ok {α : Type} (a : α) : refused (.ok a : Except PyError α) = false := rfl

@[simp] theorem refused_error {α : Type} (err : PyError) :
    refused (.error err : Except PyError α) = err.refusal := rfl

/-- The encoder refuses nothing. -/
theorem refused_of_raisesEncoding {α : Type} {x : Except PyError α} (h : RaisesEncoding x) :
    refused x = false := by
  cases x with
  | ok a => rfl
  | error err =>
    have hkind := h err rfl
    cases err <;> first | rfl | cases hkind

/-- A stored level off the ladder is a `ValueError`. -/
theorem refused_autonomyFor {agent : AgentIdentity} {w : String} {c : AuthorityClass} :
    refused (agent.autonomyFor w c) = false := by
  unfold AgentIdentity.autonomyFor AutonomyLevel.ofValue
  split_ifs <;> rfl

/-! ## Events have agents -/

/-- The agent of every stored event is registered. -/
def EventsKnown (v : StoreView) : Prop :=
  ∀ i e, v.events i = some e → (v.agents e.agentId).isSome = true

section

variable {v : StoreView}

theorem eventsKnown_empty : EventsKnown .empty := fun _ _ h => nomatch h

theorem isSome_agents_setAgent {i : String} (h : (v.agents i).isSome = true) (g : AgentIdentity) :
    ((v.setAgent g).agents i).isSome = true := by
  rw [StoreView.agents_setAgent]
  split
  · rfl
  · exact h

theorem EventsKnown.setAgent (h : EventsKnown v) (g : AgentIdentity) :
    EventsKnown (v.setAgent g) :=
  fun i e he => isSome_agents_setAgent (h i e he) g

theorem EventsKnown.setEvent (h : EventsKnown v) {e : WorkflowEvent}
    (hknown : (v.agents e.agentId).isSome = true) : EventsKnown (v.setEvent e) := by
  intro i e' he'
  rw [StoreView.events_setEvent] at he'
  rw [StoreView.agents_setEvent]
  split at he'
  · cases he'
    exact hknown
  · exact h i e' he'

end

section

variable {P : Primitives} {F : Type} {cp : ControlPlane P F} {o : Oracle} {keys : KeyPair P}
variable {replica : Nat} {S C L : Type} [Store S] [LawfulStore S] [CapabilityStateStore C]
variable [AuditLog L]

variable (o keys replica) in
/-- What a call does to the store: it writes one agent, event, rule or nonce, or nothing. -/
theorem view_worldHandler (op : Call) (w : World S C L) :
    view (worldHandler o keys replica op w).2.store = view w.store ∨
      (∃ g, view (worldHandler o keys replica op w).2.store = (view w.store).setAgent g) ∨
      (∃ e e', (op = .addEvent e ∨ op = .touchEvent e) ∧ e'.agentId = e.agentId ∧
        view (worldHandler o keys replica op w).2.store = (view w.store).setEvent e') ∨
      (∃ r, view (worldHandler o keys replica op w).2.store = (view w.store).setRule r) ∨
      ∃ a n, view (worldHandler o keys replica op w).2.store = (view w.store).addNonce a n := by
  by_cases hchange : op.changesStore = false
  · rw [store_worldHandler hchange]
    exact Or.inl rfl
  · cases op with
    | addAgent g => exact Or.inr (Or.inl ⟨_, view_addAgent g w.store⟩)
    | touchAgent g =>
      rcases view_touchAgent g w.store with hsame | hset
      · exact Or.inl hsame
      · exact Or.inr (Or.inl ⟨_, hset⟩)
    | addEvent e =>
      refine Or.inr (Or.inr (Or.inl ⟨e, _, Or.inl rfl, ?_, view_addEvent e w.store⟩))
      exact (eventScope_kept e).2.1
    | touchEvent e =>
      rcases view_touchEvent e w.store with hsame | hset
      · exact Or.inl hsame
      · exact Or.inr (Or.inr (Or.inl ⟨e, e, Or.inr rfl, rfl, hset⟩))
    | addRule r => exact Or.inr (Or.inr (Or.inr (Or.inl ⟨_, view_addRule r w.store⟩)))
    | claimNonce a n =>
      exact Or.inr (Or.inr (Or.inr (Or.inr ⟨a, n, (view_claimNonce a n w.store).2⟩)))
    | _ => exact absurd rfl hchange

/-- A registered agent stays registered. -/
theorem isSome_agents_worldHandler {w : World S C L} {i : String}
    (h : ((view w.store).agents i).isSome = true) (op : Call) :
    ((view (worldHandler o keys replica op w).2.store).agents i).isSome = true := by
  rcases view_worldHandler o keys replica op w with
    hview | ⟨g, hview⟩ | ⟨_, e, _, _, hview⟩ | ⟨r, hview⟩ | ⟨a, n, hview⟩ <;> rw [hview]
  · exact h
  · exact isSome_agents_setAgent h g
  · rwa [StoreView.agents_setEvent]
  · rwa [StoreView.agents_setRule]
  · rwa [StoreView.agents_addNonce]

/-- A call that stores an event has to be about a registered agent. -/
theorem EventsKnown.worldHandler {w : World S C L} (h : EventsKnown (view w.store)) {op : Call}
    (hop : ∀ e, op = .addEvent e ∨ op = .touchEvent e →
      ((view w.store).agents e.agentId).isSome = true) :
    EventsKnown (view (worldHandler o keys replica op w).2.store) := by
  rcases view_worldHandler o keys replica op w with
    hview | ⟨g, hview⟩ | ⟨e, e', he, hagent, hview⟩ | ⟨r, hview⟩ | ⟨a, n, hview⟩ <;> rw [hview]
  · exact h
  · exact h.setAgent g
  · exact h.setEvent (hagent ▸ hop e he)
  · exact h
  · exact h

/-- The call stores no event. -/
def Call.storesNoEvent (c : Call) : Prop := ∀ e, ¬ (c = .addEvent e ∨ c = .touchEvent e)

theorem storesNoEvent_of_plain (c : Call) (h : c.plain = true) (_ : c.recordsTrust = false) :
    c.storesNoEvent := by
  rintro e (rfl | rfl) <;> cases h

theorem EventsKnown.of_uses {α : Type} {p : CpProg α} (hp : p.Uses Call.storesNoEvent)
    {w : World S C L} (h : EventsKnown (view w.store)) :
    p.Ensures (EarnedAutonomy.worldHandler o keys replica) w
      fun _ w' => EventsKnown (view w'.store) :=
  ensures_of_uses (I := fun w : World S C L => EventsKnown (view w.store)) hp
    (fun _ hop _ hs => hs.worldHandler fun e he => absurd he (hop e)) h

omit [CapabilityStateStore C] [AuditLog L] in
/-- Who was found is registered. -/
theorem isSome_agents_of_found {w w' : World S C L} {e : WorkflowEvent} {agent : AgentIdentity}
    (h : cp.found o w e = some (agent, w')) :
    ((view w'.store).agents e.agentId).isSome = true := by
  unfold found at h
  split at h
  · rename_i hagent
    cases h
    rw [← getAgent_eq, hagent]
    rfl
  · split at h
    · cases h
    · cases h
      rw [view_addAgent, StoreView.agents_setAgent, if_pos]
      · rfl
      · rw [agentId_kept]
        rfl

/-- A proposal stores its event after its agent was found. -/
theorem ensures_eventsKnown_proposeEvent {e : WorkflowEvent} {w : World S C L}
    (h : EventsKnown (view w.store)) :
    (cp.proposeEvent e).Ensures (worldHandler o keys replica) w
      fun _ w' => EventsKnown (view w'.store) := by
  have hauthenticate : (cp.authenticate e).Ensures (worldHandler o keys replica) w
      fun _ w' => EventsKnown (view w'.store) := by
    refine h.of_uses (uses_authenticate storesNoEvent_of_plain fun _ now => ?_)
    rintro e' (h | h) <;> cases h
  unfold proposeEvent
  rw [ensures_bind]
  generalize hrun : (cp.authenticate e).run (worldHandler o keys replica) w = outcome
  obtain ⟨result, w₁⟩ := outcome
  unfold Ensures at hauthenticate ⊢
  rw [hrun] at hauthenticate ⊢
  cases result with
  | error err => exact hauthenticate
  | ok agent =>
    have hagent := isSome_agents_of_found (run_authenticate_eq_ok_iff.mp hrun).1
    -- from here on the agent is registered and the events are about this agent
    refine And.left (ensures_of_uses (p := cp.assess e agent >>= cp.conclude)
      (I := fun w : World S C L => EventsKnown (view w.store) ∧
        ((view w.store).agents e.agentId).isSome = true)
      (A := fun op => ∀ e', op = .addEvent e' ∨ op = .touchEvent e' → e'.agentId = e.agentId)
      ?_ (fun op hop s hs => ?_) ⟨hauthenticate, hagent⟩)
    · have hplain : ∀ c : Call, c.plain = true → c.recordsTrust = false →
          ∀ e', c = .addEvent e' ∨ c = .touchEvent e' → e'.agentId = e.agentId :=
        fun c hc ht e' he' => absurd he' (storesNoEvent_of_plain c hc ht e')
      refine uses_bind (uses_assess hplain ?_ ?_ ?_) fun p => uses_conclude hplain fun t entry => ?_
      · rintro e' (h | h) <;> cases h
      · rintro e' (h | h) <;> cases h
        rfl
      · rintro e' (h | h) <;> cases h
        rfl
      · rintro e' (h | h) <;> cases h
    · exact ⟨hs.1.worldHandler fun e' he' => (hop e' he') ▸ hs.2,
        isSome_agents_worldHandler hs.2 op⟩

variable [Arithmetic F]

/-- In every reachable state the agent of a stored event is registered. -/
theorem eventsKnown_of_runs {turns : List (CpTurn F S C L)} {w : World S C L}
    (h : (cp.system o).Runs (World.initial S C L) turns w) : EventsKnown (view w.store) := by
  refine h.invariant (I := fun w => EventsKnown (view w.store)) ?_ fun x _ hserve hbefore => ?_
  · rw [show view (World.initial S C L).store = .empty from view_empty]
    exact eventsKnown_empty
  · refine (cp.system o).of_ensures hserve (Q := fun _ w' => EventsKnown (view w'.store)) ?_
    obtain ⟨before, ⟨replica, cmd⟩, calls, result, after⟩ := x
    by_cases hpropose : ∃ e, cmd = .proposeEvent e
    · obtain ⟨e, rfl⟩ := hpropose
      exact ensures_bind_of_keeps (ensures_eventsKnown_proposeEvent hbefore) fun _ _ h => h
    · refine EventsKnown.of_uses (uses_body storesNoEvent_of_plain (fun c hown => ?_) ?_) hbefore
      · intro e he
        cases cmd with
        | proposeEvent e' => exact hpropose ⟨e', rfl⟩
        | _ => rcases he with rfl | rfl <;> simp [ownCall] at hown
      · intro t _ payload actor e he
        rcases he with h | h <;> cases h

end

/-! ## A decision is refused or counted -/

namespace DelegationMemory

variable {m : DelegationMemory} {a w : String} {c : AuthorityClass}

/-- An entry that exists is read without a change. -/
theorem get_of_find? {s : TrustStats} (h : m.find? a w c = some s) (now : String) :
    m.get a w c now = (s, m) := by
  unfold get
  rw [h]

/-- What has decided an event has an entry. -/
theorem exists_find?_of_decided {i : String} (h : i ∈ m.decided (key a w c)) :
    ∃ s, m.find? a w c = some s := by
  unfold decided at h
  unfold find?
  cases hfound : Dict.get? m.stats (key a w c) with
  | none =>
    rw [hfound] at h
    cases h
  | some s => exact ⟨s, rfl⟩

/-- A decision on an event that is not decided is counted. -/
theorem applyDecision_of_undecided {d : ApprovalDecision} (created now : String)
    (h : d.eventId ∉ m.decided (key a w c)) : ∃ s,
      s = (m.get a w c created).1.decide d.eventId d.outcome now ∧
      m.applyDecision a w c d created now = (.ok s, (m.get a w c created).2.put a w c s) := by
  rcases m.applyDecision_cases a w c now d created with ⟨hdecided, _⟩ | ⟨_, s, hs, happly⟩
  · exact absurd hdecided h
  · exact ⟨s, hs, happly⟩

end DelegationMemory

section

variable {P : Primitives} {F : Type} {o : Oracle} {keys : KeyPair P} {replica : Nat}
variable {S C L : Type} [Store S] [CapabilityStateStore C] [AuditLog L]
variable {d : ApprovalDecision} {e : WorkflowEvent} {w : World S C L}

variable (o keys) in
/-- A replay changes nothing, not even an entry or the clock. -/
theorem replay_worldHandler {a wf : String} {c : AuthorityClass}
    (h : d.eventId ∈ (w.memories replica).decided (key a wf c)) :
    ∃ m, worldHandler o keys replica (.applyDecision a wf c d) w =
      (.error (.replayError m), w) := by
  obtain ⟨s, hfound⟩ := DelegationMemory.exists_find?_of_decided h
  have hdecided : d.eventId ∈ s.decidedEventIds := by
    rw [← DelegationMemory.decided_get_fst _ a wf c "", DelegationMemory.get_of_find? hfound] at h
    exact h
  have hsame : w.setMemory replica (w.memories replica) = w := by
    unfold World.setMemory
    rw [Function.update_eq_self]
  have hcreates : creates (w.memories replica) a wf c = 0 := by
    unfold creates
    rw [hfound]
    rfl
  simp only [worldHandler, hcreates, DelegationMemory.applyDecision,
    DelegationMemory.get_of_find? hfound, if_pos hdecided, Nat.add_zero]
  exact ⟨_, congrArg (Prod.mk _) hsame⟩

variable (o keys) in
/-- A decision on an event that is not decided is applied. -/
theorem answer_of_undecided {a wf : String} {c : AuthorityClass}
    (h : d.eventId ∉ (w.memories replica).decided (key a wf c)) :
    ∃ s created now,
      s = ((w.memories replica).get a wf c created).1.decide d.eventId d.outcome now ∧
      (w.memories replica).applyDecision a wf c d created now =
        (.ok s, ((w.memories replica).get a wf c created).2.put a wf c s) ∧
      (worldHandler o keys replica (.applyDecision a wf c d) w).1 = .ok s ∧
      (worldHandler o keys replica (.applyDecision a wf c d) w).2.store = w.store ∧
      (worldHandler o keys replica (.applyDecision a wf c d) w).2.memories =
        Function.update w.memories replica
          (((w.memories replica).get a wf c created).2.put a wf c s) := by
  obtain ⟨s, hs, happly⟩ := DelegationMemory.applyDecision_of_undecided
    (isoformat (o.time w.reads))
    (isoformat (o.time (w.reads + creates (w.memories replica) a wf c))) h
  refine ⟨s, _, _, hs, happly, ?_, ?_, ?_⟩ <;> simp only [worldHandler, happly] <;> rfl

omit [Store S] [CapabilityStateStore C] [AuditLog L] in
/-- Reading an entry that was just stored changes nothing. -/
theorem update_get_of_put {w' : World S C L} {m : DelegationMemory} {a wf : String}
    {c : AuthorityClass} {s : TrustStats}
    (h : w'.memories = Function.update w.memories replica (m.put a wf c s)) (now : String) :
    Function.update w'.memories replica ((w'.memories replica).get a wf c now).2 =
      w'.memories := by
  have hfound : (w'.memories replica).find? a wf c = some s := by
    rw [h, Function.update_self, DelegationMemory.find?_put, if_pos ⟨rfl, rfl, rfl⟩]
  rw [DelegationMemory.get_of_find? hfound, Function.update_eq_self]

/-- Who may not decide is refused. -/
theorem ensures_checkApprover_refuses :
    (checkApprover e d).Ensures (worldHandler o keys replica) w fun result _ =>
      ∀ err, result = .error err → err.refusal = true := by
  unfold checkApprover
  cases requiresSeparationOfDuties e.authorityRequested with
  | false => exact fun _ h => by cases h
  | true =>
    simp only [if_true, perform_bind, ensures_call]
    cases (worldHandler o keys replica (.getAgent e.agentId) w).1 with
    | none => exact fun _ h => by cases h
    | some agent =>
      dsimp only
      split
      · intro err h
        cases h
        rfl
      · exact fun _ h => by cases h

/-- The decision is turned away and nothing is changed. -/
structure Refuses {α : Type} (replica : Nat) (w : World S C L) (d : ApprovalDecision)
    (result : Except PyError α) (w' : World S C L) : Prop where
  against : ∀ e, ¬ Counts replica w d e
  refused : refused result = true
  same : w' = w

/-- The decision is applied to the statistics of its replica, and they are not changed
otherwise. -/
structure Vets {α : Type} (replica : Nat) (w : World S C L) (d : ApprovalDecision)
    (e : WorkflowEvent) (result : Except PyError α) (w' : World S C L) : Prop where
  counts : Counts replica w d e
  accepted : refused result = false
  applied : ∃ s m created now,
    (w.memories replica).applyDecision e.agentId e.workflowId e.authorityRequested d created now =
        (.ok s, m) ∧
      w'.memories = Function.update w.memories replica m

variable [EncodingLedger L]

/-- An append keeps the store and the statistics, and refuses nothing. -/
theorem ensures_append {eventType : String} {payload : PyVal} {actorId : Option String} :
    (ledgerAppend eventType payload actorId).Ensures (worldHandler o keys replica) w
      fun result w' => w'.store = w.store ∧ w'.memories = w.memories ∧ refused result = false := by
  unfold ledgerAppend
  rw [perform_bind, ensures_call, ensures_ofExcept]
  exact ⟨rfl, rfl, refused_of_raisesEncoding (EncodingLedger.append_error keys _ _)⟩

variable [Arithmetic F]

/-- A recommendation for an unknown agent is refused.  Otherwise it reads the statistics of the
key. -/
theorem ensures_recommendFor_reads {a wf : String} {c : AuthorityClass} :
    (recommendFor F a wf c).Ensures (worldHandler o keys replica) w fun result w' =>
      (getAgent a w.store = none ∧ refused result = true ∧ w' = w) ∨
        (∃ agent, getAgent a w.store = some agent) ∧ refused result = false ∧ ∃ now,
          w'.memories = Function.update w.memories replica
            ((w.memories replica).get a wf c now).2 := by
  unfold recommendFor
  rw [perform_bind, ensures_call]
  simp only [worldHandler]
  cases hfound : getAgent a w.store with
  | none => exact Or.inl ⟨rfl, rfl, rfl⟩
  | some agent =>
    dsimp only
    rw [perform_bind, ensures_call]
    simp only [worldHandler]
    generalize hget : (w.memories replica).get a wf c (isoformat (o.time w.reads)) = answer
    obtain ⟨stats, m⟩ := answer
    dsimp only
    -- whatever follows, the statistics stay as the read has left them
    have hread {result : Except PyError (AutonomyRecommendation F)} {w' : World S C L}
        (hrefused : refused result = false)
        (hmemories : w'.memories = Function.update w.memories replica m) :
        (some agent = none ∧ refused result = true ∧ w' = w) ∨
          (∃ agent', some agent = some agent') ∧ refused result = false ∧ ∃ now,
            w'.memories = Function.update w.memories replica
              ((w.memories replica).get a wf c now).2 := by
      refine Or.inr ⟨⟨agent, rfl⟩, hrefused, isoformat (o.time w.reads), ?_⟩
      rw [hget]
      exact hmemories
    rw [ensures_bind, ensures_ofExcept]
    have hlevel : refused (agent.autonomyFor stats.workflowId stats.authorityClass) = false :=
      refused_autonomyFor
    cases hcurrent : agent.autonomyFor stats.workflowId stats.authorityClass with
    | error err =>
      rw [hcurrent] at hlevel
      exact hread hlevel rfl
    | ok current =>
      dsimp only
      rw [ensures_bind]
      refine (ensures_finalize _ _ _).mono fun result w₁ hfinalize => ?_
      obtain ⟨⟨r, rfl, _⟩, _, hmemories⟩ := hfinalize
      dsimp only
      rw [perform_bind, ensures_call, ensures_bind]
      refine ensures_append.mono fun result w₂ happend => ?_
      obtain ⟨_, hkept, hrefused⟩ := happend
      cases result with
      | error err => exact hread hrefused (hkept.trans hmemories)
      | ok record => exact hread rfl (hkept.trans hmemories)

/-- A decision is refused and nothing is changed, or it is vetted and counted once. -/
theorem ensures_vetting [LawfulStore S] (hknown : EventsKnown (view w.store)) :
    (submitDecision F d).Ensures (worldHandler o keys replica) w fun result w' =>
      Refuses replica w d result w' ∨ ∃ e, Vets replica w d e result w' := by
  unfold submitDecision
  rw [perform_bind, ensures_call]
  simp only [worldHandler]
  cases hstored : getEvent d.eventId w.store with
  | none =>
    refine Or.inl ⟨fun e h => ?_, rfl, rfl⟩
    rw [h.stored] at hstored
    cases hstored
  | some e =>
    dsimp only
    have hsame {e' : WorkflowEvent} (h : Counts replica w d e') : e' = e :=
      Option.some.inj (h.stored.symm.trans hstored)
    have hagent : ((view w.store).agents e.agentId).isSome = true :=
      hknown _ e (getEvent_eq d.eventId w.store ▸ hstored)
    rcases run_checkApprover o keys replica e d w with ⟨hmay, hrun⟩ | ⟨hnot, err, hrun⟩
    · rw [ensures_bind_ok hrun, perform_bind, ensures_call]
      by_cases hdecided : d.eventId ∈
          (w.memories replica).decided (key e.agentId e.workflowId e.authorityRequested)
      · obtain ⟨message, hreplay⟩ := replay_worldHandler o keys hdecided
        rw [hreplay]
        exact Or.inl ⟨fun e' h => h.undecided (hsame h ▸ hdecided), rfl, rfl⟩
      · obtain ⟨s, created, now, hs, happly, hanswer, hstore, hmemories⟩ :=
          answer_of_undecided o keys hdecided
        generalize worldHandler o keys replica
          (.applyDecision e.agentId e.workflowId e.authorityRequested d) w = answer at *
        obtain ⟨applied, w₁⟩ := answer
        dsimp only at hanswer hstore hmemories ⊢
        subst hanswer
        -- whatever follows, the decision stays counted as it was
        have hvets {result : Except PyError (DecisionResult F)} {w' : World S C L}
            (haccepted : refused result = false) (hkept : w'.memories = w₁.memories) :
            Refuses replica w d result w' ∨ ∃ e, Vets replica w d e result w' :=
          Or.inr ⟨e, ⟨hstored, hmay, hdecided⟩, haccepted, s, _, created, now, happly,
            hkept.trans hmemories⟩
        show Ensures _ (ledgerAppend _ _ _ >>= _) w₁ _
        rw [ensures_bind]
        refine ensures_append.mono fun result w₂ happend => ?_
        obtain ⟨hstore₂, hmemories₂, hrefused₂⟩ := happend
        cases result with
        | error err => exact hvets hrefused₂ hmemories₂
        | ok record =>
          dsimp only
          rw [ensures_bind]
          refine ensures_recommendFor_reads.mono fun result w₃ hread => ?_
          rcases hread with ⟨hnone, _⟩ | ⟨_, hrefused₃, now', hmemories₃⟩
          · -- the agent of the event is registered
            rw [hstore₂, hstore, getAgent_eq] at hnone
            rw [hnone] at hagent
            cases hagent
          · have hkept : w₃.memories = w₁.memories := by
              rw [hmemories₃, hmemories₂]
              exact update_get_of_put hmemories now'
            cases result with
            | error err => exact hvets hrefused₃ hkept
            | ok recommendation =>
              dsimp only
              rw [ensures_bind]
              refine ensures_append.mono fun result w₄ happend' => ?_
              obtain ⟨_, hmemories₄, hrefused₄⟩ := happend'
              cases result with
              | error err => exact hvets hrefused₄ (hmemories₄.trans hkept)
              | ok record => exact hvets rfl (hmemories₄.trans hkept)
    · have herr : err.refusal = true := by
        have hrefuses : (checkApprover e d).Ensures (worldHandler o keys replica) w
            fun result _ => ∀ err, result = .error err → err.refusal = true :=
          ensures_checkApprover_refuses
        unfold Ensures at hrefuses
        rw [hrun] at hrefuses
        exact hrefuses err rfl
      rw [ensures_bind_error hrun]
      exact Or.inl ⟨fun e' h => hnot (hsame h ▸ h.approver), herr, rfl⟩

end

/-! ## What is vetted returns -/

/-- The call is an append that raises. -/
def appendFails : (op : Call) × Res op → Bool
  | ⟨.append _ _ _, .error _⟩ => true
  | _ => false

section

variable {P : Primitives} {F : Type} {o : Oracle} {keys : KeyPair P} {replica : Nat}
variable {S C L : Type} [Store S] [CapabilityStateStore C] [AuditLog L]
variable {d : ApprovalDecision} {e : WorkflowEvent} {w : World S C L}

theorem ledgerAppend_returns {eventType : String} {payload : PyVal} {actorId : Option String} :
    (ledgerAppend eventType payload actorId).EnsuresUnless (worldHandler o keys replica)
      (fun c => appendFails c = true) w fun result w' =>
        (∃ r, result = .ok r) ∧ w'.store = w.store ∧ w'.memories = w.memories := by
  unfold ledgerAppend
  rw [perform_bind, ensuresUnless_call]
  have hframe : (worldHandler o keys replica (.append eventType payload actorId) w).2.store =
      w.store ∧ (worldHandler o keys replica (.append eventType payload actorId) w).2.memories =
        w.memories := ⟨rfl, rfl⟩
  generalize worldHandler o keys replica (.append eventType payload actorId) w = answer at *
  obtain ⟨result, w'⟩ := answer
  cases result with
  | error err => exact Or.inl rfl
  | ok r => exact Or.inr (ensuresUnless_done.mpr ⟨⟨r, rfl⟩, hframe⟩)

variable [Arithmetic F]

/-- A recommendation returns where the stored level of the agent can be read. -/
theorem recommendFor_returns {a wf : String} {c : AuthorityClass} {agent : AgentIdentity}
    (hagent : getAgent a w.store = some agent) (hlevel : HasLevel w.store a wf c)
    (hown : (w.memories replica).OwnKeys) :
    (recommendFor F a wf c).EnsuresUnless (worldHandler o keys replica)
      (fun c => appendFails c = true) w fun result _ => ∃ r, result = .ok r := by
  obtain ⟨current, hcurrent⟩ := hlevel agent hagent
  obtain ⟨⟨_, hwf, hc⟩, _⟩ := hown.get a wf c (isoformat (o.time w.reads))
  unfold recommendFor
  rw [perform_bind, ensuresUnless_call]
  simp only [worldHandler, hagent]
  rw [perform_bind, ensuresUnless_call]
  refine Or.inr (Or.inr ?_)
  simp only [worldHandler]
  generalize (w.memories replica).get a wf c (isoformat (o.time w.reads)) = answer at hwf hc ⊢
  obtain ⟨stats, m⟩ := answer
  dsimp only at hwf hc ⊢
  rw [hwf, hc, hcurrent, ofExcept_ok, done_bind, ensuresUnless_bind]
  refine Or.inr ((ensures_finalize _ _ _).mono fun result w₁ hfinalize => ?_)
  obtain ⟨⟨r, rfl, _⟩, _⟩ := hfinalize
  dsimp only
  rw [perform_bind, ensuresUnless_call, ensuresUnless_bind]
  refine Or.inr (ledgerAppend_returns.mono fun result w₂ happend => ?_)
  obtain ⟨⟨record, rfl⟩, _⟩ := happend
  exact ensuresUnless_done.mpr ⟨r, rfl⟩

/-- A decision that counts returns where the stored level of the agent can be read. -/
theorem submitDecision_returns [LawfulStore S] (hknown : EventsKnown (view w.store))
    (hown : OwnKeys w) (hcounts : Counts replica w d e)
    (hlevel : HasLevel w.store e.agentId e.workflowId e.authorityRequested) :
    (submitDecision F d).EnsuresUnless (worldHandler o keys replica)
      (fun c => appendFails c = true) w fun result _ => ∃ r, result = .ok r := by
  have hisSome : ((view w.store).agents e.agentId).isSome = true :=
    hknown _ e (getEvent_eq d.eventId w.store ▸ hcounts.stored)
  obtain ⟨agent, hagent⟩ := Option.isSome_iff_exists.mp hisSome
  rw [← getAgent_eq] at hagent
  have happrover : (checkApprover e d).run (worldHandler o keys replica) w = (.ok (), w) := by
    rcases run_checkApprover o keys replica e d w with ⟨_, hrun⟩ | ⟨hnot, _⟩
    · exact hrun
    · exact absurd hcounts.approver hnot
  obtain ⟨s, _, _, _, _, hanswer, hstore, _⟩ :=
    answer_of_undecided o keys hcounts.undecided
  have hown₁ : OwnKeys (worldHandler o keys replica
    (.applyDecision e.agentId e.workflowId e.authorityRequested d) w).2 := hown.worldHandler _
  unfold submitDecision
  rw [perform_bind, ensuresUnless_call]
  simp only [worldHandler, hcounts.stored]
  refine Or.inr (ensuresUnless_bind_ok happrover ?_)
  rw [perform_bind, ensuresUnless_call]
  refine Or.inr ?_
  generalize worldHandler o keys replica
    (.applyDecision e.agentId e.workflowId e.authorityRequested d) w = answer at *
  obtain ⟨applied, w₁⟩ := answer
  dsimp only at hanswer hstore hown₁ ⊢
  subst hanswer
  show EnsuresUnless _ _ (ledgerAppend _ _ _ >>= _) w₁ _
  rw [ensuresUnless_bind]
  refine ledgerAppend_returns.mono fun result w₂ happend => ?_
  obtain ⟨⟨record, rfl⟩, hstore₂, hmemories₂⟩ := happend
  dsimp only
  rw [ensuresUnless_bind]
  have hkept : w₂.store = w.store := hstore₂.trans hstore
  refine (recommendFor_returns (hkept ▸ hagent) (hkept ▸ hlevel) ?_).mono
    fun result w₃ hrecommended => ?_
  · rw [hmemories₂]
    exact hown₁ replica
  · obtain ⟨r, rfl⟩ := hrecommended
    dsimp only
    rw [ensuresUnless_bind]
    refine ledgerAppend_returns.mono fun result w₄ happend' => ?_
    obtain ⟨⟨record', rfl⟩, _⟩ := happend'
    exact ensuresUnless_done.mpr ⟨_, rfl⟩

end

end EarnedAutonomy
