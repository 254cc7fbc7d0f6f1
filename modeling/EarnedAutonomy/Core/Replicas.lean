import EarnedAutonomy.Core.TrustFold

/-!
# Trust on two replicas

Replicas share the store, the capability state and the ledger.  The statistics that trust is
computed from are in the memory of each process.

* `TrustAsOne`: two replicas keep trust as one control plane would.
* `trust_as_one_iff`: they do exactly in the runs that count nothing.
* `trust_at_home`: where all that concerns a key is sent to one replica, that replica keeps it.
* `trust_is_kept_apart`: a decision is accepted on both replicas, and a level is recommended on
  one after an incident on the other.
-/

namespace EarnedAutonomy

open Atomic Service Prog Calendar Store LawfulStore ControlPlane
open DelegationMemory (key)

/-! ## What a run counts -/

section

variable {F S C L : Type}

/-- The incidents of a run, on whatever replica. -/
def incidentsIn (turns : List (CpTurn F S C L)) : List StatsKey := turns.filterMap incident?

theorem incident?_eq_none_iff {y : CpTurn F S C L} :
    incident? y = none ↔
      ∀ a wf c reason actorId, y.request.2 ≠ .recordIncident a wf c reason actorId := by
  unfold incident?
  cases y.request.2 <;> simp

/-- What a counter of a key comes to. -/
def trustCount (vs : List Vetted) (incidents : List StatsKey) (k : StatsKey) (t : TrustCounter) :
    Nat :=
  vs.countP (Vetted.countsFor k t) + if t = .incidents then incidents.count k else 0

/-- What happens on two replicas is counted on one or on the other. -/
theorem countP_either {β : Type} (f : CpTurn F S C L → Option β) (p : β → Bool) {ρ ρ' : Nat}
    (hne : ρ ≠ ρ') {turns : List (CpTurn F S C L)}
    (hturns : ∀ y ∈ turns, y.request.1 = ρ ∨ y.request.1 = ρ') :
    (turns.filterMap f).countP p =
      ((turns.filter fun y => y.request.1 = ρ).filterMap f).countP p +
        ((turns.filter fun y => y.request.1 = ρ').filterMap f).countP p := by
  induction turns with
  | nil => rfl
  | cons y turns ih =>
    have ih := ih fun x hx => hturns x (List.mem_cons_of_mem _ hx)
    rcases hturns y List.mem_cons_self with hy | hy
    · cases hf : f y with
      | none => simp [hy, hne, hf, ih]
      | some b =>
        simp only [List.filterMap_cons, List.filter_cons, hf, hy, hne, decide_true, decide_false,
          if_true, List.countP_cons, ih, Bool.false_eq_true, if_false]
        omega
    · cases hf : f y with
      | none => simp [hy, hne.symm, hf, ih]
      | some b =>
        simp only [List.filterMap_cons, List.filter_cons, hf, hy, hne.symm, decide_true,
          decide_false, if_true, List.countP_cons, ih, Bool.false_eq_true, if_false]
        omega

/-- What happens on one replica only is found there. -/
theorem filterMap_at {β γ : Type} (f : CpTurn F S C L → Option β) (g : β → Option γ) {ρ : Nat}
    {turns : List (CpTurn F S C L)}
    (hturns : ∀ y ∈ turns, ∀ b, f y = some b → (g b).isSome = true → y.request.1 = ρ) :
    (turns.filterMap f).filterMap g =
      ((turns.filter fun y => y.request.1 = ρ).filterMap f).filterMap g := by
  induction turns with
  | nil => rfl
  | cons y turns ih =>
    have ih := ih fun x hx => hturns x (List.mem_cons_of_mem _ hx)
    have hy := hturns y List.mem_cons_self
    by_cases hρ : y.request.1 = ρ
    · cases hf : f y with
      | none => simp [hρ, hf, ih]
      | some b => cases hg : g b <;> simp [hρ, hf, hg, ih]
    · cases hf : f y with
      | none => simp [hρ, hf, ih]
      | some b =>
        cases hg : g b with
        | none => simp [hρ, hf, hg, ih]
        | some c => exact absurd (hy b hf (by rw [hg]; rfl)) hρ

end

section

variable {F S C L : Type} [Store S]

/-- The decisions that a run has accepted, on whatever replica. -/
def vettedIn (turns : List (CpTurn F S C L)) : List Vetted := turns.filterMap vetted?

/-- The counters of two replicas, and what the runs on both come to. -/
theorem trustCount_either {ρ ρ' : Nat} (hne : ρ ≠ ρ') {turns : List (CpTurn F S C L)}
    (hturns : ∀ y ∈ turns, y.request.1 = ρ ∨ y.request.1 = ρ') (k : StatsKey)
    (t : TrustCounter) :
    trustCount (vettedIn turns) (incidentsIn turns) k t =
      trustCount (vettedOn ρ turns) (incidentsOn ρ turns) k t +
        trustCount (vettedOn ρ' turns) (incidentsOn ρ' turns) k t := by
  have hvetted := countP_either vetted? (Vetted.countsFor k t) hne hturns
  have hincidents := countP_either incident? (· == k) hne hturns
  unfold trustCount vettedIn incidentsIn vettedOn incidentsOn List.count
  rw [hvetted, hincidents]
  split <;> omega

/-- Only a run without decisions and incidents comes to nothing. -/
theorem trustCount_eq_zero_iff {vs : List Vetted} {incidents : List StatsKey} :
    (∀ k t, trustCount vs incidents k t = 0) ↔ vs = [] ∧ incidents = [] := by
  constructor
  · intro h
    refine ⟨List.eq_nil_iff_forall_not_mem.mpr fun v hv => ?_,
      List.eq_nil_iff_forall_not_mem.mpr fun k hk => ?_⟩
    · have hzero := h v.key v.decision.outcome.counter
      have hpos : 0 < vs.countP (Vetted.countsFor v.key v.decision.outcome.counter) :=
        List.countP_pos_iff.mpr ⟨v, hv, by simp [Vetted.countsFor]⟩
      unfold trustCount at hzero
      omega
    · have hzero := h k .incidents
      have hpos : 0 < incidents.count k := List.count_pos_iff.mpr hk
      rw [trustCount, if_pos rfl] at hzero
      omega
  · rintro ⟨rfl, rfl⟩ k t
    unfold trustCount
    split <;> rfl

end

/-! ## Two replicas -/

section

variable {P : Primitives} {F : Type} [Arithmetic F] {cp : ControlPlane P F} {o : Oracle}
variable {S C L : Type} [Store S] [CapabilityStateStore C] [AuditLog L]

/-- Two replicas keep trust as one control plane would: they accept one decision for an event,
the counters of both are those of the run, and no level above approval is recommended for a key
after an incident. -/
structure TrustAsOne (ρ ρ' : Nat) (turns : List (CpTurn F S C L)) (w : World S C L) : Prop where
  once : ∀ (i j : Nat) y z v v', turns[i]? = some y → turns[j]? = some z → vetted? y = some v →
    vetted? z = some v' → v.decision.eventId = v'.decision.eventId → i = j
  counters : ∀ k t,
    (w.memories ρ).counter k t = trustCount (vettedIn turns) (incidentsIn turns) k t ∧
      (w.memories ρ').counter k t = trustCount (vettedIn turns) (incidentsIn turns) k t
  capped : ∀ (i j : Nat) y z a wf c r, i < j → turns[i]? = some y →
    incident? y = some (key a wf c) → turns[j]? = some z →
    z.request.2 = .recommendFor a wf c → z.result = .ok (.recommendation r) →
      r.advice.recommendedLevel.value ≤ AutonomyLevel.executeWithApproval.value

/-- The turn reports no incident, and submits no decision that would be accepted. -/
structure CountsNothing (y : CpTurn F S C L) : Prop where
  incident : ∀ a wf c reason actorId, y.request.2 ≠ .recordIncident a wf c reason actorId
  decision : ∀ d e, y.request.2 = .submitDecision d → ¬ Counts y.request.1 y.before d e

variable [LawfulStore S] [EncodingLedger L]
variable {turns : List (CpTurn F S C L)} {w : World S C L} {ρ ρ' : Nat}

theorem vetted?_eq_none_iff {y : CpTurn F S C L}
    (hy : y = (cp.system o).serve y.before y.request)
    (hknown : EventsKnown (view y.before.store)) :
    vetted? y = none ↔ ∀ d e, y.request.2 = .submitDecision d →
      ¬ Counts y.request.1 y.before d e := by
  constructor
  · intro hnone d e hd hcounts
    rcases vetting_of_serve hy hknown hd with h | ⟨e', h⟩
    · exact h.against e hcounts
    · rw [vetted?_of_vets hd h] at hnone
      cases hnone
  · intro hagainst
    cases hv : vetted? y with
    | none => rfl
    | some v =>
      have hdecision : ∃ d, y.request.2 = .submitDecision d := by
        unfold vetted? at hv
        split at hv
        · exact ⟨_, by assumption⟩
        · cases hv
      obtain ⟨d, hd⟩ := hdecision
      rcases vetting_of_serve hy hknown hd with h | ⟨e, h⟩
      · rw [vetted?_of_refused h.refused] at hv
        cases hv
      · exact absurd h.counts (hagainst d e hd)

/-- Two replicas keep trust as one control plane would exactly if no incident is reported and
no decision is accepted: what one of them counts the other does not know of. -/
theorem trust_as_one_iff (h : (cp.system o).Runs (World.initial S C L) turns w) (hne : ρ ≠ ρ')
    (hturns : ∀ y ∈ turns, y.request.1 = ρ ∨ y.request.1 = ρ') :
    TrustAsOne ρ ρ' turns w ↔ ∀ y ∈ turns, CountsNothing y := by
  have hcounter (replica : Nat) (k : StatsKey) (t : TrustCounter) :
      (w.memories replica).counter k t =
        trustCount (vettedOn replica turns) (incidentsOn replica turns) k t :=
    (tallies_of_runs h replica).counter k t
  have hsum := trustCount_either hne hturns
  have hnothing : (vettedIn turns = [] ∧ incidentsIn turns = []) ↔
      ∀ y ∈ turns, CountsNothing y := by
    unfold vettedIn incidentsIn
    rw [List.filterMap_eq_nil_iff, List.filterMap_eq_nil_iff, ← forall₂_and]
    refine forall₂_congr fun y hy => ?_
    obtain ⟨i, hi⟩ := List.mem_iff_getElem?.mp hy
    obtain ⟨hbefore, hserve, _⟩ := h.getElem? hi
    rw [vetted?_eq_none_iff hserve (eventsKnown_of_runs hbefore), incident?_eq_none_iff]
    exact ⟨fun ⟨hd, hi⟩ => ⟨hi, hd⟩, fun ⟨hi, hd⟩ => ⟨hd, hi⟩⟩
  rw [← hnothing]
  constructor
  · intro hone
    -- each replica holds its own share, and both are the whole
    refine trustCount_eq_zero_iff.mp fun k t => ?_
    obtain ⟨hleft, hright⟩ := hone.counters k t
    rw [hcounter] at hleft hright
    have hwhole := hsum k t
    omega
  · intro hnone
    have hzero := trustCount_eq_zero_iff.mpr hnone
    have hvetted (i : Nat) (y : CpTurn F S C L) (hi : turns[i]? = some y) : vetted? y = none :=
      List.filterMap_eq_nil_iff.mp hnone.1 y (List.mem_of_getElem? hi)
    refine ⟨fun i j y z v v' hi _ hv _ _ => ?_, fun k t => ?_, fun i j y z a wf c r _ hi hy => ?_⟩
    · rw [hvetted i y hi] at hv
      cases hv
    · have hwhole := hsum k t
      rw [hcounter, hcounter, hzero]
      rw [hzero] at hwhole
      omega
    · rw [List.filterMap_eq_nil_iff.mp hnone.2 y (List.mem_of_getElem? hi)] at hy
      cases hy

/-! ## A home for each key -/

/-- All that concerns a key is sent to its home. -/
def AtHome (home : StatsKey → Nat) (turns : List (CpTurn F S C L)) : Prop :=
  ∀ y ∈ turns, ∀ k, about? y = some k → y.request.1 = home k

omit [Arithmetic F] [CapabilityStateStore C] [AuditLog L] [LawfulStore S] [EncodingLedger L] in
theorem about?_of_vetted? {y : CpTurn F S C L} {v : Vetted} (h : vetted? y = some v) :
    about? y = some v.key := by
  unfold vetted? at h
  split at h
  · rename_i d hd
    split at h
    · cases h
    · obtain ⟨e, he, rfl⟩ := Option.map_eq_some_iff.mp h
      unfold about?
      rw [hd]
      simp [he]
  · cases h

omit [Arithmetic F] [CapabilityStateStore C] [AuditLog L] [LawfulStore S] [EncodingLedger L] in
theorem about?_of_incident? {y : CpTurn F S C L} {k : StatsKey} (h : incident? y = some k) :
    about? y = some k := by
  unfold incident? at h
  split at h
  · rename_i hr
    unfold about?
    rw [hr]
    exact h
  · cases h

omit [Arithmetic F] [CapabilityStateStore C] [AuditLog L] [LawfulStore S] [EncodingLedger L] in
/-- The home of a key counts all that is counted under it, and decides all its events. -/
theorem counted_at_home {home : StatsKey → Nat} (hhome : AtHome home turns) (k : StatsKey) :
    (∀ t, trustCount (vettedIn turns) (incidentsIn turns) k t =
      trustCount (vettedOn (home k) turns) (incidentsOn (home k) turns) k t) ∧
      decidedUnder (vettedIn turns) k = decidedUnder (vettedOn (home k) turns) k := by
  have hvetted (t : TrustCounter) : (vettedIn turns).filter (Vetted.countsFor k t) =
      (vettedOn (home k) turns).filter (Vetted.countsFor k t) := by
    rw [← List.filterMap_eq_filter]
    refine filterMap_at vetted? _ fun y hy v hv hcounts => ?_
    have hkey : v.key = k := by
      by_contra hne
      simp [Vetted.countsFor, hne, Option.guard] at hcounts
    exact hhome y hy k (hkey ▸ about?_of_vetted? hv)
  have hincidents : (incidentsIn turns).filter (· == k) =
      (incidentsOn (home k) turns).filter (· == k) := by
    rw [← List.filterMap_eq_filter]
    refine filterMap_at incident? _ fun y hy k' hk' hsame => ?_
    have hkey : k' = k := by
      by_contra hne
      simp [hne, Option.guard] at hsame
    exact hhome y hy k (hkey ▸ about?_of_incident? hk')
  refine ⟨fun t => ?_, filterMap_at vetted? _ fun y hy v hv hdecides => ?_⟩
  · unfold trustCount List.count
    rw [List.countP_eq_length_filter, List.countP_eq_length_filter, List.countP_eq_length_filter,
      List.countP_eq_length_filter, hvetted, hincidents]
  · have hkey : v.key = k := by
      by_contra hne
      simp [Vetted.decides?, hne] at hdecides
    exact hhome y hy k (hkey ▸ about?_of_vetted? hv)

omit [LawfulStore S] [EncodingLedger L] in
/-- A recommendation is the engine's, on what its replica has counted. -/
theorem advice_of_recommendFor {z : CpTurn F S C L}
    (h : (cp.system o).Runs (World.initial S C L) turns z.before)
    (hserve : z = (cp.system o).serve z.before z.request) {a wf : String} {c : AuthorityClass}
    (hz : z.request.2 = .recommendFor a wf c) {r : AutonomyRecommendation F}
    (hr : z.result = .ok (.recommendation r)) :
    ∃ current stats, r.advice = recommend current stats ∧
      ∀ t, stats.counter t = (z.before.memories z.request.1).counter (key a wf c) t := by
  obtain ⟨before, ⟨replica, cmd⟩, calls, result, after⟩ := z
  obtain rfl : cmd = .recommendFor a wf c := hz
  have hanswer := (cp.system o).of_ensures hserve
    (Q := fun result _ => ∀ r, result = .ok (.recommendation r) →
      ∃ current stats, r.advice = recommend current stats ∧
        ∀ t, stats.counter t = (before.memories replica).counter (key a wf c) t) ?_
  · exact hanswer r hr
  · refine ensures_bind.mpr ((ensures_recommendFor (ownKeys_of_runs h)).mono
      fun result _ ⟨_, hrec⟩ => ?_)
    cases result with
    | error err => exact fun _ h => nomatch h
    | ok r' =>
      intro r hr
      cases hr
      obtain ⟨agent, stats, current, hrecommended, hcounters⟩ := hrec _ rfl
      exact ⟨current, stats, hrecommended.finalized.same, hcounters⟩

/-- Where all that concerns a key is sent to its home, the home counts every decision and
every incident of the key, each event is decided once under it, and no level above approval is
recommended for it after an incident. -/
theorem trust_at_home (h : (cp.system o).Runs (World.initial S C L) turns w)
    {home : StatsKey → Nat} (hhome : AtHome home turns) (k : StatsKey) :
    (∀ t, (w.memories (home k)).counter k t =
        trustCount (vettedIn turns) (incidentsIn turns) k t) ∧
      (decidedUnder (vettedIn turns) k).Nodup ∧
      ∀ (i j : Nat) y z a wf c r, i < j → turns[i]? = some y → incident? y = some k →
        turns[j]? = some z → z.request.2 = .recommendFor a wf c → key a wf c = k →
          z.result = .ok (.recommendation r) →
            r.advice.recommendedLevel.value ≤ AutonomyLevel.executeWithApproval.value := by
  have htallies := tallies_of_runs h (home k)
  obtain ⟨hcounts, hdecides⟩ := counted_at_home hhome k
  refine ⟨fun t => (htallies.counter k t).trans (hcounts t).symm, ?_,
    fun i j y z a wf c r hij hi hincident hj hz hkey hr => ?_⟩
  · rw [hdecides]
    exact htallies.nodup k
  · subst hkey
    obtain ⟨hbefore, hserve, _⟩ := h.getElem? hj
    obtain ⟨current, stats, hadvice, hstats⟩ := advice_of_recommendFor hbefore hserve hz hr
    have hreplica : z.request.1 = home (key a wf c) := by
      refine hhome z (List.mem_of_getElem? hj) _ ?_
      unfold about?
      rw [hz]
    -- the incident is among what the home has counted before
    have hcounter : 0 < (z.before.memories (home (key a wf c))).counter (key a wf c)
        .incidents := by
      have hearlier : AtHome home (turns.take j) := fun x hx => hhome x (List.mem_of_mem_take hx)
      rw [(tallies_of_runs hbefore (home (key a wf c))).counter]
      have hmem : key a wf c ∈ incidentsOn (home (key a wf c)) (turns.take j) := by
        have htake : (turns.take j)[i]? = some y := by
          rw [List.getElem?_take_of_lt hij]
          exact hi
        have hy := List.mem_of_getElem? htake
        refine List.mem_filterMap.mpr ⟨y, List.mem_filter.mpr ⟨hy, ?_⟩, hincident⟩
        exact decide_eq_true (hearlier y hy _ (about?_of_incident? hincident))
      have hpos := List.count_pos_iff.mpr hmem
      rw [if_pos rfl]
      omega
    rw [hadvice]
    refine recommend_le_of_incidents current stats ?_
    have hincidents := hstats .incidents
    rw [hreplica] at hincidents
    rw [← hincidents] at hcounter
    exact hcounter

end

/-! ### One decision for two replicas -/

/-- A decision that was accepted is submitted again, to the other replica. -/
def twiceDemo : List (Nat × Command) := decisionDemo [] ++ [(1, .submitDecision (demoDecision []))]

/-- Sixteen approvals on one replica, an incident on the other, and what the first one
recommends then. -/
def overlookedDemo : List (Nat × Command) :=
  approvalsDemo ++ [(1, .recordIncident "agent" "claims" .modifyInternalRecord "slip" "owner"),
    (0, .recommendFor "agent" "claims" .modifyInternalRecord)]

/-- The decision counts twice, and the incident is overlooked. -/
theorem trust_is_kept_apart :
    let turns := demoSystem.history (World.initial _ _ _) twiceDemo
    (∀ y ∈ turns, y.request.1 = 0 ∨ y.request.1 = 1) ∧ (∀ y ∈ turns, y.result.isOk = true) ∧
      (vettedIn turns).map (fun v => v.decision.eventId) = ["evt_1", "evt_1"] ∧
      ¬ TrustAsOne 0 1 turns (demoSystem.final (World.initial _ _ _) twiceDemo) ∧
      ((storingSystem.history (World.initial _ _ _) overlookedDemo).getLast?.bind fun y =>
        (recommendationOf y.result).map fun r => r.advice.recommendedLevel) =
          some .executeWithSampling := by
  intro turns
  obtain ⟨hreplicas, hok, hvetted, hfirst, hsecond⟩ :
      turns.all (fun y => y.request.1 = 0 || y.request.1 = 1) = true ∧
        turns.all (fun y => y.result.isOk) = true ∧
        (vettedIn turns).map (fun v => v.decision.eventId) = ["evt_1", "evt_1"] ∧
        (turns[2]?.bind vetted?).map (fun v => v.decision.eventId) = some "evt_1" ∧
        (turns[3]?.bind vetted?).map (fun v => v.decision.eventId) = some "evt_1" := by
    decide +kernel
  refine ⟨fun y hy => ?_, fun y hy => List.all_eq_true.mp hok y hy, hvetted, fun hone => ?_,
    by decide +kernel⟩
  · have hreplica := List.all_eq_true.mp hreplicas y hy
    simpa using hreplica
  · obtain ⟨v, hv, hid⟩ := Option.map_eq_some_iff.mp hfirst
    obtain ⟨y, hi, hy⟩ := Option.bind_eq_some_iff.mp hv
    obtain ⟨v', hv', hid'⟩ := Option.map_eq_some_iff.mp hsecond
    obtain ⟨z, hj, hz⟩ := Option.bind_eq_some_iff.mp hv'
    have hsame := hone.once 2 3 y z v v' hi hj hy hz (hid.trans hid'.symm)
    omega

/-! ### Decisions that are refused -/

/-- An event of a class that asks for a second person. -/
def deletingEvent : WorkflowEvent := { demoEvent true with authorityRequested := .deleteData }

/-- The owner approves the event of its agent on one replica, and on the other one a
decision is about no event at all. -/
def refusedDemo : List (Nat × Command) := [
  (0, .registerAgent demoAgent),
  (1, .proposeEvent deletingEvent),
  (0, .submitDecision { demoDecision [] with approverId := "owner" }),
  (1, .submitDecision { demoDecision [] with eventId := "evt_2" })]

theorem refusedDemo_countsNothing :
    ∀ y ∈ demoSystem.history (World.initial _ _ _) refusedDemo, CountsNothing y := by
  show ∀ y ∈ [_, _, _, _], CountsNothing y
  rw [List.forall_mem_cons, List.forall_mem_cons, List.forall_mem_cons, List.forall_mem_singleton]
  refine ⟨⟨?_, ?_⟩, ⟨?_, ?_⟩, ⟨?_, ?_⟩, ?_, ?_⟩
  · rintro _ _ _ _ _ ⟨⟩
  · rintro _ _ ⟨⟩
  · rintro _ _ _ _ _ ⟨⟩
  · rintro _ _ ⟨⟩
  · rintro _ _ _ _ _ ⟨⟩
  · -- the owner may not approve
    rintro d e ⟨⟩ hcounts
    have hstored : (getEvent "evt_1"
        (demoSystem.final (World.initial _ _ _) (refusedDemo.take 2)).store).map
          (fun e => (e.authorityRequested, e.agentId)) = some (.deleteData, "agent") := by
      decide +kernel
    rw [show getEvent "evt_1" (demoSystem.final (World.initial _ _ _) (refusedDemo.take 2)).store =
      some e from hcounts.stored, Option.map_some, Option.some.injEq, Prod.mk.injEq] at hstored
    have hduties : requiresSeparationOfDuties e.authorityRequested = true := by
      rw [hstored.1]
      rfl
    have happroves := hcounts.approver hduties demoAgent (by rw [hstored.2]; rfl) rfl
    cases happroves
  · rintro _ _ _ _ _ ⟨⟩
  · -- there is no such event
    rintro d e ⟨⟩ hcounts
    have hunknown : (getEvent "evt_2"
        (demoSystem.final (World.initial _ _ _) (refusedDemo.take 3)).store).isNone = true := by
      decide +kernel
    rw [show getEvent "evt_2" (demoSystem.final (World.initial _ _ _) (refusedDemo.take 3)).store =
      some e from hcounts.stored] at hunknown
    cases hunknown

/-- Two replicas that refuse both decisions count nothing, and agree. -/
theorem proposals_keep_trust_as_one :
    (demoSystem.history (World.initial _ _ _) refusedDemo).map (fun y => y.result.isOk) =
        [true, true, false, false] ∧
      TrustAsOne 0 1 (demoSystem.history (World.initial _ _ _) refusedDemo)
        (demoSystem.final (World.initial _ _ _) refusedDemo) := by
  refine ⟨by decide +kernel,
    (trust_as_one_iff (runs_history _ _) (by decide) fun y hy => ?_).mpr refusedDemo_countsNothing⟩
  have hrequest : y.request ∈ refusedDemo := request_mem_of_mem_history hy
  have hreplicas : ∀ r ∈ refusedDemo, r.1 = 0 ∨ r.1 = 1 := by decide
  exact hreplicas _ hrequest

end EarnedAutonomy
