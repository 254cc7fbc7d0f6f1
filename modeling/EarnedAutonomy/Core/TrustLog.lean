import EarnedAutonomy.Core.Mediation

/-!
# The trust log of a control plane

Which of the calls of a run count for trust, and that the memory of a replica
holds just what the calls on it have counted.

* `credits` and `decides?` read off a call which counter it moves and which
  event it decides.
* `memory_of_runs`: the memory of a replica, from the calls of the turns on it.
* `nodup_decided_of_runs`: a replica decides an event once under each key.
-/

namespace EarnedAutonomy

open Atomic Service Prog Calendar DelegationMemory

/-! ## What a call counts -/

/-- The call adds one to this counter. -/
def credits (k : StatsKey) (c : TrustCounter) : (op : Call) × Res op → Bool
  | ⟨.applyDecision a w cl d, .ok _⟩ => key a w cl = k && d.outcome.counter = c
  | ⟨.noteIncident a w cl, _⟩ => key a w cl = k && c = .incidents
  | _ => false

/-- The event that the call decides under this key. -/
def decides? (k : StatsKey) : (op : Call) × Res op → Option String
  | ⟨.applyDecision a w cl d, .ok _⟩ => if key a w cl = k then some d.eventId else none
  | _ => none

section

variable {P : Primitives} {o : Oracle} {keys : KeyPair P} {replica : Nat}
variable {S C L : Type} [Store S] [CapabilityStateStore C] [AuditLog L]

/-- A call reaches the memory of its own replica only. -/
theorem memories_worldHandler_ne {other : Nat} (hne : other ≠ replica) (op : Call)
    (w : World S C L) :
    (worldHandler o keys replica op w).2.memories other = w.memories other := by
  cases op with
  | applyDecision a wf cl d =>
    simp only [worldHandler]
    split <;> simp [World.setMemory, hne]
  | noteIncident a wf cl => simp [worldHandler, World.setMemory, hne]
  | getStats a wf cl => simp [worldHandler, World.setMemory, hne]
  | _ => rfl

variable (o keys replica) in
/-- A decision is refused where its event is decided under the key, and counted
otherwise. -/
theorem answer_applyDecision (a wf : String) (cl : AuthorityClass) (d : ApprovalDecision)
    (w : World S C L) : ∃ created now,
    (d.eventId ∈ (w.memories replica).decided (key a wf cl) ∧
        (∃ err, (worldHandler o keys replica (.applyDecision a wf cl d) w).1 = .error err) ∧
        (worldHandler o keys replica (.applyDecision a wf cl d) w).2.memories replica =
          ((w.memories replica).get a wf cl created).2) ∨
      (d.eventId ∉ (w.memories replica).decided (key a wf cl) ∧
        ∃ s, (worldHandler o keys replica (.applyDecision a wf cl d) w).1 = .ok s ∧
        s = ((w.memories replica).get a wf cl created).1.decide d.eventId d.outcome now ∧
        (worldHandler o keys replica (.applyDecision a wf cl d) w).2.memories replica =
          ((w.memories replica).get a wf cl created).2.put a wf cl s) := by
  refine ⟨isoformat (o.time w.reads),
    isoformat (o.time (w.reads + creates (w.memories replica) a wf cl)), ?_⟩
  rcases (w.memories replica).applyDecision_cases a wf cl
      (isoformat (o.time (w.reads + creates (w.memories replica) a wf cl))) d
      (isoformat (o.time w.reads)) with ⟨hdecided, err, happly⟩ | ⟨hdecided, s, hs, happly⟩
  · refine Or.inl ⟨hdecided, ⟨err, ?_⟩, ?_⟩
    · simp only [worldHandler, happly]
    · simp only [worldHandler, happly, World.setMemory, Function.update_self]
  · refine Or.inr ⟨hdecided, s, ?_, hs, ?_⟩
    · simp only [worldHandler, happly]
    · simp only [worldHandler, happly, World.setMemory, Function.update_self]

/-- A call moves the counters it is credited with. -/
theorem counter_worldHandler (op : Call) (w : World S C L) (k : StatsKey) (c : TrustCounter) :
    ((worldHandler o keys replica op w).2.memories replica).counter k c =
      (w.memories replica).counter k c +
        (credits k c ⟨op, (worldHandler o keys replica op w).1⟩).toNat := by
  cases op with
  | applyDecision a wf cl d =>
    obtain ⟨created, now, ⟨_, ⟨err, hanswer⟩, hmemory⟩ | ⟨_, s, hanswer, hs, hmemory⟩⟩ :=
      answer_applyDecision o keys replica a wf cl d w
    · rw [hanswer, hmemory, counter_get_snd]
      rfl
    · rw [hanswer, hmemory, counter_put, counter_get_snd, hs, TrustStats.counter_decide,
        counter_get_fst]
      by_cases hk : key a wf cl = k
      · subst hk
        by_cases hc : d.outcome.counter = c <;> simp [credits, hc]
      · simp [credits, hk]
  | noteIncident a wf cl =>
    simp only [worldHandler, World.setMemory, Function.update_self, counter_recordIncident]
    by_cases hk : key a wf cl = k <;> by_cases hc : c = .incidents <;> simp [credits, hk, hc]
  | getStats a wf cl => simp [worldHandler, World.setMemory, credits]
  | _ => simp [credits, worldHandler, World.setMetrics, onCap]

variable (o keys replica) in
/-- A call decides an event under a key that has not decided it. -/
theorem decided_worldHandler (op : Call) (w : World S C L) (k : StatsKey) :
    ((worldHandler o keys replica op w).2.memories replica).decided k =
        (w.memories replica).decided k ++
          (decides? k ⟨op, (worldHandler o keys replica op w).1⟩).toList ∧
      ∀ i ∈ decides? k ⟨op, (worldHandler o keys replica op w).1⟩,
        i ∉ (w.memories replica).decided k := by
  cases op with
  | applyDecision a wf cl d =>
    obtain ⟨created, now, ⟨_, ⟨err, hanswer⟩, hmemory⟩ | ⟨hnew, s, hanswer, hs, hmemory⟩⟩ :=
      answer_applyDecision o keys replica a wf cl d w
    · rw [hanswer, hmemory, decided_get_snd]
      simp [decides?]
    · rw [hanswer, hmemory, decided_put, decided_get_snd, hs, TrustStats.decidedEventIds_decide,
        decided_get_fst]
      by_cases hk : key a wf cl = k
      · subst hk
        simp [decides?, hnew]
      · simp [decides?, hk]
  | noteIncident a wf cl => simp [worldHandler, World.setMemory, decides?]
  | getStats a wf cl => simp [worldHandler, World.setMemory, decides?]
  | _ => simp [decides?, worldHandler, World.setMetrics, onCap]

/-! ## The log of a run -/

theorem counter_answers {w w' : World S C L} {calls : List ((c : Call) × Res c)}
    (h : Prog.Answers (worldHandler o keys replica) w calls w') (k : StatsKey)
    (c : TrustCounter) : (w'.memories replica).counter k c =
      (w.memories replica).counter k c + calls.countP (credits k c) := by
  induction calls generalizing w with
  | nil =>
    rw [show w' = w from h]
    rfl
  | cons call rest ih =>
    obtain ⟨op, answer⟩ := call
    obtain ⟨rfl, hrest⟩ := h
    rw [ih hrest, counter_worldHandler, List.countP_cons]
    cases credits k c ⟨op, (worldHandler o keys replica op w).1⟩ with
    | false => simp
    | true =>
      simp only [Bool.toNat_true, if_true]
      omega

theorem decided_answers {w w' : World S C L} {calls : List ((c : Call) × Res c)}
    (h : Prog.Answers (worldHandler o keys replica) w calls w') (k : StatsKey) :
    (w'.memories replica).decided k =
      (w.memories replica).decided k ++ calls.filterMap (decides? k) := by
  induction calls generalizing w with
  | nil =>
    rw [show w' = w from h]
    exact (List.append_nil _).symm
  | cons call rest ih =>
    obtain ⟨op, answer⟩ := call
    obtain ⟨rfl, hrest⟩ := h
    rw [ih hrest, (decided_worldHandler o keys replica op w k).1, List.filterMap_cons]
    cases decides? k ⟨op, (worldHandler o keys replica op w).1⟩ <;> simp

/-- No event is decided twice under one key. -/
theorem nodup_decided_worldHandler {op : Call} {w : World S C L} {k : StatsKey}
    (h : ((w.memories replica).decided k).Nodup) :
    (((worldHandler o keys replica op w).2.memories replica).decided k).Nodup := by
  obtain ⟨hdecided, hnew⟩ := decided_worldHandler o keys replica op w k
  rw [hdecided]
  cases hid : decides? k ⟨op, (worldHandler o keys replica op w).1⟩ with
  | none => simpa using h
  | some i =>
    rw [hid] at hnew
    have hne : ∀ j ∈ (w.memories replica).decided k, j ≠ i := by
      intro j hj hji
      exact hnew i rfl (hji ▸ hj)
    simpa [List.nodup_append, h] using hne

/-- The calls of the turns on a replica. -/
def callsOn {F : Type} (replica : Nat) (turns : List (CpTurn F S C L)) :
    List ((c : Call) × Res c) :=
  (turns.filter fun y => y.request.1 = replica).flatMap Turn.calls

end

section

variable {P : Primitives} {F : Type} [Arithmetic F] {cp : ControlPlane P F} {o : Oracle}
variable {S C L : Type} [Store S] [CapabilityStateStore C] [AuditLog L]
variable {turns : List (CpTurn F S C L)} {w w' : World S C L}

/-- A memory holds what the turns on its replica have counted. -/
theorem memory_of_runs (h : (cp.system o).Runs w turns w') (replica : Nat) (k : StatsKey) :
    (∀ c, (w'.memories replica).counter k c =
        (w.memories replica).counter k c + (callsOn replica turns).countP (credits k c)) ∧
      (w'.memories replica).decided k =
        (w.memories replica).decided k ++ (callsOn replica turns).filterMap (decides? k) := by
  induction h with
  | nil => simp [callsOn]
  | @snoc turns t h r ih =>
    obtain ⟨hcounter, hdecided⟩ := ih
    let y := (cp.system o).serve t r
    have hanswers : Prog.Answers (worldHandler o cp.ledgerKeys r.1) t y.calls y.after :=
      (cp.system o).answers_serve t r
    by_cases hr : r.1 = replica
    · have hcalls : callsOn replica (turns ++ [y]) = callsOn replica turns ++ y.calls := by
        have hrequest : y.request.1 = replica := hr
        simp [callsOn, hrequest]
      rw [hr] at hanswers
      rw [hcalls]
      constructor
      · intro c
        rw [counter_answers hanswers, hcounter, List.countP_append, Nat.add_assoc]
      · rw [decided_answers hanswers, hdecided, List.filterMap_append, List.append_assoc]
    · have hcalls : callsOn replica (turns ++ [y]) = callsOn replica turns := by
        have hrequest : y.request.1 ≠ replica := hr
        simp [callsOn, hrequest]
      have hmemory : y.after.memories replica = t.memories replica :=
        hanswers.invariant (I := fun u => u.memories replica = t.memories replica)
          (fun call _ u hu => (memories_worldHandler_ne (Ne.symm hr) call.1 u).trans hu) rfl
      rw [hcalls]
      change (∀ c, (y.after.memories replica).counter k c = _) ∧
        (y.after.memories replica).decided k = _
      rw [hmemory]
      exact ⟨hcounter, hdecided⟩

/-- Under one key an event is decided once. -/
theorem nodup_decided_of_runs (h : (cp.system o).Runs w turns w') {replica : Nat} {k : StatsKey}
    (hw : ((w.memories replica).decided k).Nodup) : ((w'.memories replica).decided k).Nodup := by
  refine h.invariant_of_calls (I := fun w => ((w.memories replica).decided k).Nodup) hw
    fun r op s hs => ?_
  by_cases hr : r.1 = replica
  · subst hr
    exact nodup_decided_worldHandler hs
  · change ((worldHandler o cp.ledgerKeys r.1 op s).2.memories replica |>.decided k).Nodup
    rw [memories_worldHandler_ne (Ne.symm hr)]
    exact hs

end

/-! ## What a decision is credited to -/

/-- The call applies no decision. -/
def NoDecision (c : Call) : Prop := ∀ a w cl d, c ≠ .applyDecision a w cl d

theorem noDecision_of_plain (c : Call) (h : c.plain = true) (_ : c.recordsTrust = false) :
    NoDecision c := by
  rintro a w cl d rfl
  cases h

section

variable {F : Type} [Arithmetic F] {d : ApprovalDecision} {calls : List ((c : Call) × Res c)}

/-- A decision is applied under the scope of the event it has found. -/
theorem follows_submitDecision_apply {q : CpProg (ControlPlane.DecisionResult F)}
    (h : Follows (ControlPlane.submitDecision F d) calls q) {a w : String} {cl : AuthorityClass}
    {d' : ApprovalDecision} {r : Except PyError TrustStats}
    (hr : ⟨.applyDecision a w cl d', r⟩ ∈ calls) :
    ∃ e rest, calls = ⟨.getEvent d.eventId, some e⟩ :: rest ∧
      a = e.agentId ∧ w = e.workflowId ∧ cl = e.authorityRequested ∧ d' = d := by
  have hnot : ¬ NoDecision (.applyDecision a w cl d') := fun h => h a w cl d' rfl
  simp only [ControlPlane.submitDecision, perform_bind] at h
  rcases follows_call_iff.mp h with ⟨rfl, _⟩ | ⟨found, rest, rfl, hrest⟩
  · cases hr
  have hlater : ⟨.applyDecision a w cl d', r⟩ ∈ rest := by
    rcases List.mem_cons.mp hr with heq | hlater
    · cases heq
    · exact hlater
  cases found with
  | none =>
    obtain ⟨rfl, _⟩ := follows_raise_iff.mp hrest
    cases hlater
  | some e =>
    refine ⟨e, rest, rfl, ?_⟩
    obtain ⟨_, front, back, rfl, _, hback, hmem⟩ :=
      hrest.mem_of_bind (ControlPlane.uses_checkApprover noDecision_of_plain e d) hlater hnot
    rcases follows_call_iff.mp hback with ⟨rfl, _⟩ | ⟨answer, tail, rfl, htail⟩
    · cases hmem
    rcases List.mem_cons.mp hmem with heq | hmem
    · cases heq
      exact ⟨rfl, rfl, rfl, rfl⟩
    · -- nothing after that applies a decision
      refine absurd (htail.uses_calls ?_ _ hmem) hnot
      refine uses_bind (uses_ofExcept _) fun stats => ?_
      refine uses_bind (uses_ledgerAppend fun _ _ _ _ h => nomatch h) fun _ => ?_
      refine uses_bind (ControlPlane.uses_recommendFor noDecision_of_plain _ _ _) fun _ => ?_
      exact uses_bind (uses_ledgerAppend fun _ _ _ _ h => nomatch h) fun _ => trivial

/-- A decision that was answered has been applied. -/
theorem follows_submitDecision_done {result : ControlPlane.DecisionResult F}
    (h : Follows (ControlPlane.submitDecision F d) calls (.done result)) :
    ∃ e rest s, calls = ⟨.getEvent d.eventId, some e⟩ :: rest ∧
      ⟨.applyDecision e.agentId e.workflowId e.authorityRequested d, .ok s⟩ ∈ calls := by
  simp only [ControlPlane.submitDecision, perform_bind, follows_call_done_iff] at h
  obtain ⟨found, rest, rfl, h⟩ := h
  cases found with
  | none => simp at h
  | some e =>
    rw [follows_bind_done_iff] at h
    obtain ⟨_, front, back, rfl, _, hback⟩ := h
    obtain ⟨answer, tail, rfl, htail⟩ := follows_call_done_iff.mp hback
    obtain ⟨stats, hstats, _⟩ := follows_ofExcept_bind_done_iff.mp htail
    cases answer with
    | error err => cases hstats
    | ok s => exact ⟨e, _, s, rfl, by simp⟩

end

/-! ## Turns -/

section

variable {P : Primitives} {F : Type} {cp : ControlPlane P F} {o : Oracle}
variable {S C L : Type} [Store S] [CapabilityStateStore C] [AuditLog L]

/-- The turn is a decision that was answered. -/
structure Decided (y : CpTurn F S C L) (d : ApprovalDecision) : Prop where
  request : y.request.2 = .submitDecision d
  result : ∃ r, y.result = .ok (.decided r)

variable [Arithmetic F]

/-- A decision is applied under the scope of the event that is stored under its id. -/
theorem applied_under {y : CpTurn F S C L} {d d' : ApprovalDecision} {a wf : String}
    {c : AuthorityClass} {r : Except PyError TrustStats}
    (hy : y = (cp.system o).serve y.before y.request) (hcmd : y.request.2 = .submitDecision d)
    (hr : ⟨.applyDecision a wf c d', r⟩ ∈ y.calls) :
    ∃ e, Store.getEvent d.eventId y.before.store = some e ∧
      a = e.agentId ∧ wf = e.workflowId ∧ c = e.authorityRequested ∧ d' = d := by
  have hfollows := (cp.system o).follows_serve y.before y.request
  have hanswers := (cp.system o).answers_serve y.before y.request
  rw [← hy] at hfollows hanswers
  obtain ⟨w, ⟨replica, cmd⟩, calls, result, w'⟩ := y
  obtain rfl : cmd = .submitDecision d := hcmd
  obtain ⟨q, hq, _⟩ := Follows.of_map (p := ControlPlane.submitDecision F d) hfollows
  obtain ⟨e, rest, rfl, hscope⟩ := follows_submitDecision_apply hq hr
  exact ⟨e, hanswers.1, hscope⟩

/-- A decision that was answered has decided its event, on its replica. -/
theorem Decided.decides {y : CpTurn F S C L} {d : ApprovalDecision} (hd : Decided y d)
    (hy : y = (cp.system o).serve y.before y.request) :
    ∃ e, Store.getEvent d.eventId y.before.store = some e ∧
      d.eventId ∈ y.calls.filterMap
        (decides? (key e.agentId e.workflowId e.authorityRequested)) := by
  have hfollows := (cp.system o).follows_serve y.before y.request
  have hanswers := (cp.system o).answers_serve y.before y.request
  rw [← hy] at hfollows hanswers
  obtain ⟨w, ⟨replica, cmd⟩, calls, result, w'⟩ := y
  obtain ⟨r, rfl⟩ := hd.result
  obtain rfl : cmd = .submitDecision d := hd.request
  obtain ⟨q, hq, _⟩ := Follows.of_map_done (p := ControlPlane.submitDecision F d) hfollows
  obtain ⟨e, rest, s, rfl, happly⟩ := follows_submitDecision_done hq
  refine ⟨e, hanswers.1, List.mem_filterMap.mpr ⟨_, happly, ?_⟩⟩
  simp [decides?]

end

end EarnedAutonomy
