import EarnedAutonomy.Core.Atomicity
import EarnedAutonomy.Core.TrustRecords

/-!
# Recommendations and their approval

The ceiling and the separation of duties are each written twice: in the recommender, which
clamps the level and says whether a second person has to approve, and in
`approve_delegation_rule`, which refuses.

* `RaisesEncoding`: a ledger raises what encoding a payload raises, and nothing else.
* `OwnKeys`: the statistics of a key name that key (`ownKeys_of_runs`), so a rule is proposed
  for the agent that was asked about.
* `Recommended` is what `recommend_for` answers with, `ensures_ruleApproval` what an
  approval comes to.
* `recommendation_can_be_approved` puts them together in every reachable state.
-/

namespace EarnedAutonomy

open Atomic Service Prog OrderedDict Calendar Store LawfulStore ControlPlane

/-! ## What an append raises -/

/-- The errors of the encoder. -/
def PyError.ofEncoding : PyError → Bool
  | .typeError | .valueError | .unicodeEncodeError => true
  | _ => false

/-- A computation that raises nothing but errors of the encoder. -/
def RaisesEncoding {α : Type} (x : Except PyError α) : Prop :=
  ∀ err, x = .error err → err.ofEncoding = true

theorem raisesEncoding_ok {α : Type} (a : α) : RaisesEncoding (.ok a : Except PyError α) :=
  fun _ h => nomatch h

theorem RaisesEncoding.bind {α β : Type} {x : Except PyError α} {f : α → Except PyError β}
    (hx : RaisesEncoding x) (hf : ∀ a, RaisesEncoding (f a)) : RaisesEncoding (x >>= f) := by
  cases x with
  | ok a => exact hf a
  | error err =>
    intro err' h
    cases h
    exact hx err rfl

theorem raisesEncoding_keysSerializable (ks : List PyKey) :
    RaisesEncoding (keysSerializable ks) := by
  unfold keysSerializable
  intro err h
  split at h
  · cases h
    rfl
  · split at h <;> cases h
    rfl

theorem raisesEncoding_serializable (v : PyVal) : RaisesEncoding (serializable v) := by
  have items {xs : List PyVal} (ih : ∀ x ∈ xs, RaisesEncoding (serializable x)) :
      RaisesEncoding (serializableItems xs) := by
    induction xs with
    | nil => exact raisesEncoding_ok _
    | cons x xs ihxs =>
      rw [List.forall_mem_cons] at ih
      exact ih.1.bind fun _ => ihxs ih.2
  have entries {d : List (PyKey × PyVal)} (ih : ∀ e ∈ d, RaisesEncoding (serializable e.2)) :
      RaisesEncoding (serializableEntries d) := by
    induction d with
    | nil => exact raisesEncoding_ok _
    | cons e d ihd =>
      rw [List.forall_mem_cons] at ih
      exact ih.1.bind fun _ => ihd ih.2
  induction v using PyVal.induction with
  | float f =>
    intro err h
    rw [serializable] at h
    split at h <;> cases h
    rfl
  | list xs ih => exact items ih
  | tuple xs ih => exact items ih
  | dict d ih => exact (raisesEncoding_keysSerializable _).bind fun _ => entries ih
  | _ => exact raisesEncoding_ok _

theorem raisesEncoding_canonicalBytes (v : PyVal) : RaisesEncoding (canonicalBytes v) := by
  refine (raisesEncoding_serializable v).bind fun _ => ?_
  intro err h
  split at h <;> cases h
  rfl

/-- A ledger raises only what encoding the record raises. -/
class EncodingLedger (L : Type) [AuditLog L] : Prop where
  append_error : ∀ {P : Primitives} (keys : KeyPair P) (e : LedgerEntry) (l : L),
    RaisesEncoding (AuditLog.append keys e l).1

theorem raisesEncoding_sealRecord {P : Primitives} (keys : KeyPair P) (e : LedgerEntry) (n : Nat)
    (previous : Option String) : RaisesEncoding (sealRecord keys e n previous) :=
  (RaisesEncoding.bind (raisesEncoding_canonicalBytes _) fun _ => raisesEncoding_ok _).bind
    fun _ => raisesEncoding_ok _

instance : EncodingLedger AuditLedger where
  append_error keys e l := by
    intro err h
    simp only [AuditLog.append, AuditLedger.append] at h
    split at h <;> cases h
    rename_i hseal
    exact raisesEncoding_sealRecord keys e _ _ err hseal

instance : EncodingLedger SqlAuditLedger where
  append_error keys e l := by
    intro err h
    simp only [AuditLog.append, SqlAuditLedger.append] at h
    split at h <;> cases h
    rename_i hseal
    exact raisesEncoding_sealRecord keys e _ _ err hseal

/-! ## Statistics under their own keys -/

namespace DelegationMemory

/-- The statistics name the key they are kept under. -/
def OwnKeys (m : DelegationMemory) : Prop :=
  ∀ a w c s, m.find? a w c = some s → s.agentId = a ∧ s.workflowId = w ∧ s.authorityClass = c

theorem ownKeys_empty : ({} : DelegationMemory).OwnKeys := fun _ _ _ _ h => nomatch h

variable {m : DelegationMemory} {a w : String} {c : AuthorityClass}

theorem OwnKeys.put (h : m.OwnKeys) {s : TrustStats}
    (hs : s.agentId = a ∧ s.workflowId = w ∧ s.authorityClass = c) : (m.put a w c s).OwnKeys := by
  intro a' w' c' s' hs'
  rw [find?_put] at hs'
  split at hs'
  · rename_i hkey
    obtain ⟨rfl, rfl, rfl⟩ := hkey
    cases hs'
    exact hs
  · exact h a' w' c' s' hs'

/-- A `get` answers with the statistics of its key, and keeps them so. -/
theorem OwnKeys.get (h : m.OwnKeys) (a w : String) (c : AuthorityClass) (now : String) :
    ((m.get a w c now).1.agentId = a ∧ (m.get a w c now).1.workflowId = w ∧
      (m.get a w c now).1.authorityClass = c) ∧ (m.get a w c now).2.OwnKeys := by
  unfold DelegationMemory.get
  cases hfound : m.find? a w c with
  | some s => exact ⟨h a w c s hfound, h⟩
  | none => exact ⟨⟨rfl, rfl, rfl⟩, h.put ⟨rfl, rfl, rfl⟩⟩

theorem OwnKeys.recordIncident (h : m.OwnKeys) (a w : String) (c : AuthorityClass)
    (created now : String) : (m.recordIncident a w c created now).2.OwnKeys := by
  obtain ⟨hkey, hget⟩ := h.get a w c created
  exact hget.put hkey

/-- A decision is counted under the key. -/
theorem OwnKeys.decide (h : m.OwnKeys) (a w : String) (c : AuthorityClass) (eventId : String)
    (outcome : ApprovalOutcome) (created now : String) :
    ((m.get a w c created).2.put a w c
      ((m.get a w c created).1.decide eventId outcome now)).OwnKeys := by
  obtain ⟨⟨ha, hw, hc⟩, hget⟩ := h.get a w c created
  refine hget.put ?_
  cases outcome <;> exact ⟨ha, hw, hc⟩

end DelegationMemory

section

variable {P : Primitives} {F : Type} [Arithmetic F] {cp : ControlPlane P F} {o : Oracle}
variable {S C L : Type} [Store S] [CapabilityStateStore C] [AuditLog L]
variable {keys : KeyPair P} {replica : Nat}

/-- The statistics of every replica name their keys. -/
def OwnKeys (w : World S C L) : Prop := ∀ replica, (w.memories replica).OwnKeys

omit [Arithmetic F] in
theorem OwnKeys.worldHandler {w : World S C L} (h : OwnKeys w) (op : Call) :
    OwnKeys (worldHandler o keys replica op w).2 := by
  intro other
  by_cases hother : other = replica
  · subst hother
    cases op with
    | applyDecision a wf c d =>
      obtain ⟨created, now, ⟨_, _, hmemory⟩ | ⟨_, s, _, rfl, hmemory⟩⟩ :=
        answer_applyDecision o keys other a wf c d w
      · rw [hmemory]
        exact ((h other).get a wf c created).2
      · rw [hmemory]
        exact (h other).decide a wf c d.eventId d.outcome created now
    | noteIncident a wf c =>
      simp only [EarnedAutonomy.worldHandler, World.setMemory, Function.update_self]
      exact (h other).recordIncident a wf c _ _
    | getStats a wf c =>
      simp only [EarnedAutonomy.worldHandler, World.setMemory, Function.update_self]
      exact ((h other).get a wf c _).2
    | _ => exact h other
  · rw [memories_worldHandler_ne hother]
    exact h other

theorem ownKeys_of_runs {turns : List (CpTurn F S C L)} {w : World S C L}
    (h : (cp.system o).Runs (World.initial S C L) turns w) : OwnKeys w := by
  refine h.invariant (I := OwnKeys) (fun _ => DelegationMemory.ownKeys_empty)
    fun x _ hserve hbefore => ?_
  refine (cp.system o).of_ensures hserve (Q := fun _ w' => OwnKeys w') ?_
  exact ensures_of_uses (uses_true _) (fun op _ _ hw => hw.worldHandler op) hbefore

/-! ## What a recommendation is -/

/-- The recommendation of `_finalize`: a rule for the scope of the statistics exactly if the
advice is above the current level. -/
structure Finalized (stats : TrustStats) (advice : Advice F) (r : AutonomyRecommendation F) :
    Prop where
  same : r.advice = advice
  proposes : r.proposedRule.isSome = true ↔
    advice.currentLevel.value < advice.recommendedLevel.value
  rule : ∀ rule, r.proposedRule = some rule →
    ∃ ruleId createdAt, rule = suggestedRule stats advice.recommendedLevel ruleId createdAt
  second : r.requiresSecondApprover =
    (r.proposedRule.isSome && requiresSeparationOfDuties stats.authorityClass)

omit [Arithmetic F] in
/-- `_finalize` draws its ids and reads the clock, and raises nothing. -/
theorem ensures_finalize (stats : TrustStats) (advice : Advice F) (w : World S C L) :
    (finalize stats advice).Ensures (worldHandler o keys replica) w fun result w' =>
      (∃ r, result = .ok r ∧ Finalized stats advice r) ∧ w'.store = w.store ∧
        w'.memories = w.memories := by
  unfold finalize
  dsimp only
  split
  · rename_i hraised
    refine ⟨⟨_, rfl, ⟨rfl, iff_of_true rfl hraised, ?_, rfl⟩⟩, rfl, rfl⟩
    intro rule hrule
    exact ⟨_, _, (Option.some.inj hrule).symm⟩
  · rename_i hsame
    refine ⟨⟨_, rfl, ⟨rfl, iff_of_false Bool.false_ne_true hsame, ?_, rfl⟩⟩, rfl, rfl⟩
    intro rule hrule
    cases hrule

/-- The advice keeps the level it was asked with. -/
theorem currentLevel_recommend (current : AutonomyLevel) (stats : TrustStats) :
    (recommend (F := F) current stats).currentLevel = current := by
  unfold recommend
  dsimp only
  split
  · rfl
  · split
    · rfl
    · split <;> rfl

/-- What `recommend_for` answers with: the engine's recommendation for a registered agent, on
its stored level and the statistics of the key. -/
structure Recommended (w : World S C L) (agentId workflowId : String)
    (authorityClass : AuthorityClass) (r : AutonomyRecommendation F) (agent : AgentIdentity)
    (stats : TrustStats) (current : AutonomyLevel) : Prop where
  registered : getAgent agentId w.store = some agent
  level : agent.autonomyFor workflowId authorityClass = .ok current
  agentId_eq : stats.agentId = agentId
  workflowId_eq : stats.workflowId = workflowId
  authorityClass_eq : stats.authorityClass = authorityClass
  finalized : Finalized stats (recommend current stats) r

theorem ensures_recommendFor {a wf : String} {c : AuthorityClass} {w : World S C L}
    (hkeys : OwnKeys w) :
    (recommendFor F a wf c).Ensures (worldHandler o keys replica) w fun result w' =>
      w'.store = w.store ∧ ∀ r, result = .ok r →
        ∃ agent stats current, Recommended w a wf c r agent stats current ∧
          ∀ t, stats.counter t = (w.memories replica).counter (DelegationMemory.key a wf c) t := by
  unfold recommendFor
  rw [perform_bind, ensures_call]
  simp only [worldHandler]
  cases hfound : getAgent a w.store with
  | none => exact ⟨rfl, fun r hr => by cases hr⟩
  | some agent =>
    dsimp only
    rw [perform_bind, ensures_call]
    simp only [worldHandler]
    generalize hget : (w.memories replica).get a wf c (isoformat (o.time w.reads)) = answer
    obtain ⟨stats, m⟩ := answer
    obtain ⟨⟨ha, hwf, hc⟩, _⟩ := (hkeys replica).get a wf c (isoformat (o.time w.reads))
    have hcounters := (w.memories replica).counter_get_fst a wf c (isoformat (o.time w.reads))
    rw [hget] at ha hwf hc hcounters
    dsimp only at ha hwf hc hcounters ⊢
    rw [ensures_bind, ensures_ofExcept]
    cases hlevel : agent.autonomyFor stats.workflowId stats.authorityClass with
    | error err => exact ⟨rfl, fun r hr => by cases hr⟩
    | ok current =>
      dsimp only
      rw [ensures_bind]
      refine (ensures_finalize _ _ _).mono fun result w₁ hfinalize => ?_
      obtain ⟨⟨r, rfl, hfinal⟩, hstore, _⟩ := hfinalize
      dsimp only
      rw [perform_bind, ensures_call, ensures_bind]
      rw [hwf, hc] at hlevel
      have hrecommended : Recommended w a wf c r agent stats current :=
        ⟨hfound, hlevel, ha, hwf, hc, hfinal⟩
      -- the rest writes to the ledger
      refine (ensures_of_uses (I := fun t => t.store = w₁.store)
        (A := fun op => op.changesStore = false) (uses_ledgerAppend rfl) ?_ rfl).mono
          fun result w₂ hsame => ?_
      · intro op hop t ht
        exact (store_worldHandler hop t).trans ht
      · have hkept : w₂.store = w.store := hsame.trans hstore
        cases result with
        | error err => exact ⟨hkept, fun r hr => by cases hr⟩
        | ok record =>
          refine ⟨hkept, fun r' hr' => ?_⟩
          cases hr'
          exact ⟨agent, stats, current, hrecommended, hcounters⟩

/-! ## What an approval comes to -/

/-- What `approve_delegation_rule` writes to the ledger. -/
def approvalPayload (rule : DelegationRule) (approverId : String) (approverRole : Option PyStr) :
    PyVal :=
  .dict (rule.entries ++ [((.str "approved_by" : PyKey), PyVal.text approverId),
    (.str "approver_role", PyVal.optStr approverRole)])

/-- The rule a recommendation proposes can be recorded, if the role of its approver can. -/
theorem encodable_approvalPayload {stats : TrustStats} {level : AutonomyLevel}
    {ruleId createdAt approverId : String} {role : Option PyStr} :
    (approvalPayload { suggestedRule stats level ruleId createdAt with
      createdBy := some approverId } approverId role).Encodable ↔
        ∀ t ∈ role, t.isUtf8 = true := by
  have hrate : (suggestedRule stats level ruleId createdAt).sampleRate.isFinite = true := by
    unfold suggestedRule
    dsimp only
    split <;> rfl
  have hname : (suggestedRule stats level ruleId createdAt).ruleName.isUtf8 = true := rfl
  rw [approvalPayload, encodable_of_textKeys rfl, DelegationRule.entries]
  simp only [List.cons_append, List.nil_append, List.forall_mem_cons]
  have hconditions : (suggestedRule stats level ruleId createdAt).conditions.toVal.Encodable := by
    refine encodable_mapping.mpr fun e he => ?_
    obtain rfl := List.mem_singleton.mp he
    exact ⟨rfl, encodable_bool true⟩
  have hmetadata : (suggestedRule stats level ruleId createdAt).metadata.toVal.Encodable :=
    encodable_mapping.mpr fun _ he => nomatch he
  have hreason : (suggestedRule stats level ruleId createdAt).revokedReason = none := rfl
  simp [-encodable_mapping, hrate, hname, hconditions, hmetadata, hreason]

omit [Arithmetic F] in
theorem raisesEncoding_ledgerAppend [EncodingLedger L] {eventType : String} {payload : PyVal}
    {actorId : Option String} (w : World S C L) :
    (ledgerAppend eventType payload actorId).Ensures (worldHandler o keys replica) w
      fun result _ => RaisesEncoding result := by
  unfold ledgerAppend
  rw [perform_bind, ensures_call, ensures_ofExcept]
  exact EncodingLedger.append_error keys _ _

variable [LawfulAuditLog L] [LawfulRecorder L] [EncodingLedger L]

/-- The owner of the agent may not approve the rule. -/
def NeedsAnother (rule : DelegationRule) (agent : AgentIdentity) (approverId : String) : Prop :=
  requiresSeparationOfDuties rule.authorityClass = true ∧ approverId = agent.ownerId

/-- The result of an approval and the store after it, for a rule of a registered agent that is
not above the ceiling. -/
structure Approved (rule : DelegationRule) (agent : AgentIdentity) (approverId : String)
    (role : Option PyStr) (w : World S C L) (result : Except PyError DelegationRule)
    (w' : World S C L) : Prop where
  refused : NeedsAnother rule agent approverId →
    (∃ m, result = .error (.separationOfDutiesError m)) ∧ w'.store = w.store
  stored : ¬ NeedsAnother rule agent approverId →
    w'.store = addRule { rule with createdBy := some approverId } w.store
  returns : ¬ NeedsAnother rule agent approverId →
    (approvalPayload { rule with createdBy := some approverId } approverId role).Encodable →
      result = .ok { rule with createdBy := some approverId }
  raises : ¬ NeedsAnother rule agent approverId →
    ¬ (approvalPayload { rule with createdBy := some approverId } approverId role).Encodable →
      ∃ err, result = .error err ∧ err.ofEncoding = true

omit [Arithmetic F] in
theorem ensures_ruleApproval {rule : DelegationRule} {agent : AgentIdentity}
    {approverId : String} {role : Option PyStr} {w : World S C L}
    (hagent : getAgent rule.agentId w.store = some agent)
    (hceiling : rule.autonomyLevel.value ≤ (autonomyCeilingFor rule.authorityClass).value) :
    (approveDelegationRule rule approverId role).Ensures (worldHandler o keys replica) w
      (Approved rule agent approverId role w) := by
  unfold approveDelegationRule
  rw [perform_bind, ensures_call]
  simp only [worldHandler, hagent, if_neg (Nat.not_lt.mpr hceiling), Option.any_some]
  by_cases hneeds : NeedsAnother rule agent approverId
  · rw [if_pos (by simpa [NeedsAnother] using hneeds)]
    exact ⟨fun _ => ⟨⟨_, rfl⟩, rfl⟩, fun h => absurd hneeds h, fun h => absurd hneeds h,
      fun h => absurd hneeds h⟩
  · rw [if_neg (by simpa [NeedsAnother] using hneeds), perform_bind, ensures_call]
    refine ensures_bind.mpr ((run_ledgerAppend.and (raisesEncoding_ledgerAppend _)).mono
      fun result w' happended => ?_)
    obtain ⟨⟨hstore, _, hresult⟩, hraises⟩ := happended
    change (approvalPayload _ approverId role).Encodable ∧ _ ∨
      ¬ (approvalPayload _ approverId role).Encodable ∧ _ at hresult
    rcases hresult with ⟨hencodable, r, _, rfl, _⟩ | ⟨hnot, ⟨err, rfl⟩, _⟩
    · exact ⟨fun h => absurd h hneeds, fun _ => hstore, fun _ _ => rfl,
        fun _ h => absurd hencodable h⟩
    · exact ⟨fun h => absurd h hneeds, fun _ => hstore, fun _ h => absurd h hnot,
        fun _ _ => ⟨err, rfl, hraises err rfl⟩⟩

/-! ## Both together -/

/-- The approval of a proposed rule by someone: it never fails the ceiling, and it returns
exactly for an approver who is not the owner, or where no second approver is required.  A role
that cannot be encoded cannot be recorded, but the rule is stored by then. -/
structure ApprovalAgrees (cp : ControlPlane P F) (o : Oracle) (r : AutonomyRecommendation F)
    (agent : AgentIdentity) (rule : DelegationRule) (w : World S C L) (replica : Nat)
    (approverId : String) (role : Option PyStr) : Prop where
  ceiling : ∀ m, ((cp.system o).serve w
    (replica, .approveDelegationRule rule approverId role)).result ≠ .error (.controlPlaneError m)
  returns : ((cp.system o).serve w (replica, .approveDelegationRule rule approverId role)).result =
      .ok (.rule { rule with createdBy := some approverId }) ↔
    (approverId ≠ agent.ownerId ∨ r.requiresSecondApprover = false) ∧
      ∀ text ∈ role, text.isUtf8 = true
  stored : approverId ≠ agent.ownerId ∨ r.requiresSecondApprover = false →
    ((cp.system o).serve w (replica, .approveDelegationRule rule approverId role)).after.store =
      addRule { rule with createdBy := some approverId } w.store

variable {cp : ControlPlane P F}

theorem approvalAgrees_of_le_ceiling {r : AutonomyRecommendation F} {agent : AgentIdentity}
    {rule : DelegationRule} {approverId : String} {role : Option PyStr} {w : World S C L}
    (hagent : getAgent rule.agentId w.store = some agent)
    (hceiling : rule.autonomyLevel.value ≤ (autonomyCeilingFor rule.authorityClass).value)
    (hsecond : r.requiresSecondApprover = requiresSeparationOfDuties rule.authorityClass)
    (hpayload : (approvalPayload { rule with createdBy := some approverId } approverId
      role).Encodable ↔ ∀ t ∈ role, t.isUtf8 = true) :
    ApprovalAgrees cp o r agent rule w replica approverId role := by
  have hmay : (approverId ≠ agent.ownerId ∨ r.requiresSecondApprover = false) ↔
      ¬ NeedsAnother rule agent approverId := by
    rw [hsecond, NeedsAnother, not_and_or, or_comm, Bool.not_eq_true]
  have happroval := (cp.system o).of_ensures
    (y := (cp.system o).serve w (replica, .approveDelegationRule rule approverId role)) rfl
    (Q := fun result w' => ∃ given, Approved rule agent approverId role w given w' ∧
      result = given.map Answer.rule) (by
        refine ensures_bind.mpr ((ensures_ruleApproval hagent hceiling).mono
          fun result w' happroved => ?_)
        cases result with
        | ok rule' => exact ⟨_, happroved, rfl⟩
        | error err => exact ⟨_, happroved, rfl⟩)
  obtain ⟨given, happroved, hresult⟩ := happroval
  constructor
  · intro m hm
    rw [hresult] at hm
    by_cases hneeds : NeedsAnother rule agent approverId
    · obtain ⟨⟨m', hm'⟩, _⟩ := happroved.refused hneeds
      rw [hm'] at hm
      cases hm
    · by_cases hencodable : (approvalPayload { rule with createdBy := some approverId } approverId
          role).Encodable
      · rw [happroved.returns hneeds hencodable] at hm
        cases hm
      · obtain ⟨err, herr, hkind⟩ := happroved.raises hneeds hencodable
        rw [herr] at hm
        cases hm
        cases hkind
  · rw [hmay, ← hpayload, hresult]
    constructor
    · intro hok
      by_cases hneeds : NeedsAnother rule agent approverId
      · obtain ⟨⟨m', hm'⟩, _⟩ := happroved.refused hneeds
        rw [hm'] at hok
        cases hok
      · refine ⟨hneeds, ?_⟩
        by_contra hnot
        obtain ⟨err, herr, _⟩ := happroved.raises hneeds hnot
        rw [herr] at hok
        cases hok
    · rintro ⟨hneeds, hencodable⟩
      rw [happroved.returns hneeds hencodable]
      rfl
  · intro h
    exact happroved.stored (hmay.mp h)

/-- In every reachable state a recommendation and the approval of the rule it proposes agree.  A
rule is proposed exactly where the recommended level is above the current one. -/
theorem recommendation_can_be_approved {turns : List (CpTurn F S C L)} {s : World S C L}
    (h : (cp.system o).Runs (World.initial S C L) turns s) {a wf : String} {c : AuthorityClass}
    {r : AutonomyRecommendation F}
    (hr : ((cp.system o).serve s (replica, .recommendFor a wf c)).result =
      .ok (.recommendation r)) :
    (r.proposedRule.isSome = true ↔
        r.advice.currentLevel.value < r.advice.recommendedLevel.value) ∧
      ((cp.system o).serve s (replica, .recommendFor a wf c)).after.store = s.store ∧
      ∃ agent, getAgent a s.store = some agent ∧
        agent.autonomyFor wf c = .ok r.advice.currentLevel ∧
        ∀ rule, r.proposedRule = some rule →
          rule.inScope a wf c.value = true ∧ rule.autonomyLevel = r.advice.recommendedLevel ∧
          ∀ t : World S C L, t.store = s.store → ∀ replica approverId role,
            ApprovalAgrees cp o r agent rule t replica approverId role := by
  have hrecommend : (recommendFor F a wf c).Ensures (worldHandler o cp.ledgerKeys replica) s
      fun result w' => w'.store = s.store ∧ ∀ r, result = .ok r →
        ∃ agent stats current, Recommended s a wf c r agent stats current := by
    refine (ensures_recommendFor (ownKeys_of_runs h)).mono fun result w' ⟨hstore, hrec⟩ => ?_
    refine ⟨hstore, fun r hr => ?_⟩
    obtain ⟨agent, stats, current, hrecommended, _⟩ := hrec r hr
    exact ⟨agent, stats, current, hrecommended⟩
  have hanswer := (cp.system o).of_ensures
    (y := (cp.system o).serve s (replica, .recommendFor a wf c)) rfl
    (Q := fun result w' => w'.store = s.store ∧ (result = .ok (.recommendation r) →
      ∃ agent stats current, Recommended s a wf c r agent stats current)) (by
        refine ensures_bind.mpr (hrecommend.mono fun result w' ⟨hstore, hrec⟩ => ?_)
        cases result with
        | error err => exact ⟨hstore, fun h => nomatch h⟩
        | ok r' =>
          refine ⟨hstore, fun h => ?_⟩
          cases h
          exact hrec r rfl)
  obtain ⟨hstore, hrec⟩ := hanswer
  obtain ⟨agent, stats, current, ⟨hagent, hlevel, ha, hwf, hc, hfinal⟩⟩ := hrec hr
  have hcurrent : r.advice.currentLevel = current := by
    rw [hfinal.same, currentLevel_recommend]
  refine ⟨?_, hstore, agent, hagent, hcurrent ▸ hlevel, fun rule hrule => ?_⟩
  · rw [hfinal.same]
    exact hfinal.proposes
  · obtain ⟨ruleId, createdAt, hsuggested⟩ := hfinal.rule rule hrule
    have hscope : rule.agentId = a ∧ rule.workflowId = wf ∧ rule.authorityClass = c := by
      rw [hsuggested]
      exact ⟨ha, hwf, hc⟩
    refine ⟨?_, ?_, fun t ht replica' approverId role => ?_⟩
    · simp [DelegationRule.inScope, hscope.1, hscope.2.1, hscope.2.2]
    · rw [hsuggested, hfinal.same]
      rfl
    · apply approvalAgrees_of_le_ceiling
      · rw [ht, hscope.1]
        exact hagent
      · rw [hsuggested]
        exact recommend_le_ceiling current stats
      · rw [hfinal.second, hrule, hsuggested]
        rfl
      · rw [hsuggested]
        exact encodable_approvalPayload

end

/-! ### A history that earns a rule -/

/-- A plane that takes unsigned events and classifies none, so that a proposal only stores its
event. -/
def storingPlane : ControlPlane Primitives.named Dyadic :=
  { demoPlane with config := { strictMode := false }, classify := fun _ => .error .valueError }

abbrev storingSystem : Service PyError (Nat × Command) Res (Answer Dyadic) SqlWorld :=
  storingPlane.system (demoOracle fun _ => demoHour 12)

/-- Sixteen approvals.  Their rationale cannot be written, so each of them is counted and not
recorded. -/
def approvalsDemo : List (Nat × Command) :=
  (0, .registerAgent demoAgent) :: (List.range 16).flatMap fun i =>
    let name := String.ofList (List.replicate i 'i')
    [(0, .proposeEvent { demoEvent false with eventId := name, nonce := name }),
      (0, .submitDecision { demoDecision [] with
        eventId := name, outcome := .approved, rationale := .lone ⟨[0xD800], rfl⟩ })]

/-- The recommendation of an answer. -/
def recommendationOf {F : Type} : Except PyError (Answer F) → Option (AutonomyRecommendation F)
  | .ok (.recommendation r) => some r
  | _ => none

private theorem eq_ok_of_recommendationOf {F : Type} {x : Except PyError (Answer F)}
    {r : AutonomyRecommendation F} (h : recommendationOf x = some r) :
    x = .ok (.recommendation r) := by
  unfold recommendationOf at h
  split at h
  · rw [Option.some.inj h]
  · cases h

/-- They earn a rule, which can be approved as the recommendation says. -/
theorem sixteen_approvals_earn_a_rule :
    ∃ s r rule agent, storingSystem.Runs (World.initial _ _ _)
        (storingSystem.history (World.initial _ _ _) approvalsDemo) s ∧
      (storingSystem.serve s (0, .recommendFor "agent" "claims" .modifyInternalRecord)).result =
        .ok (.recommendation r) ∧
      r.proposedRule = some rule ∧ Store.getAgent "agent" s.store = some agent ∧
      ∀ approverId, ApprovalAgrees storingPlane (demoOracle fun _ => demoHour 12) r agent rule s 0
        approverId none := by
  have hrun := runs_history (S := storingSystem) (World.initial _ _ _) approvalsDemo
  have hrule : (recommendationOf (storingSystem.serve
      (storingSystem.final (World.initial _ _ _) approvalsDemo)
        (0, .recommendFor "agent" "claims" .modifyInternalRecord)).result).any
          (fun r => r.proposedRule.isSome) = true := by
    decide +kernel
  generalize storingSystem.final (World.initial _ _ _) approvalsDemo = s at hrun hrule
  obtain ⟨r, hr, hsome⟩ := (Option.any_eq_true _ _).mp hrule
  obtain ⟨rule, hproposed⟩ := Option.isSome_iff_exists.mp hsome
  have hr := eq_ok_of_recommendationOf hr
  obtain ⟨_, _, agent, hagent, _, hagrees⟩ := recommendation_can_be_approved hrun hr
  obtain ⟨_, _, happroval⟩ := hagrees rule hproposed
  exact ⟨s, r, rule, agent, hrun, hr, hproposed, hagent, fun approverId =>
    happroval s rfl 0 approverId none⟩

end EarnedAutonomy
