import EarnedAutonomy.Core.Atomicity
import EarnedAutonomy.Core.TrustLog

/-!
# Trust on the record

`submit_decision` and `record_incident` count before they write to the ledger,
and the ledger raises for what it cannot write.

* `AuditRecord.credit?` reads off a record which counter of which key it speaks
  of.
* `Effect` is how the counters of a replica and the records of the ledger grow,
  and adds up along a program.  What is not a decision or an incident has none
  (`ensures_quiet`).
* `ensures_submitDecision` and `ensures_incidentRecorded` say what the other two
  count, and when that is on the record.
* `trust_is_on_record_iff`: the counters of a control plane are what its ledger
  says exactly as long as every turn can record what it counts (`OnRecord`).
  `decision_off_the_record` is a run with a turn that cannot.
-/

namespace EarnedAutonomy

open Atomic Service Prog Calendar Store LawfulStore ControlPlane
open DelegationMemory (key)

/-! ## What a record stands for -/

/-- A text that a `dict` holds under a key. -/
def PyVal.text? (v : PyVal) (key : String) : Option String :=
  match v with
  | .dict d =>
      match PyVal.lookup d (.str (.utf8 key)) with
      | some (.str (.utf8 text)) => some text
      | _ => Option.none
  | _ => Option.none

def ApprovalOutcome.all : List ApprovalOutcome :=
  [.approved, .rejected, .modifiedAndApproved, .moreEvidenceRequested, .escalated,
    .convertedToDelegationRule]

/-- The key and the counter that a record speaks of, its event looked up in a store. -/
def AuditRecord.credit? {S : Type} [Store S] (s : S) (r : AuditRecord) :
    Option (StatsKey × TrustCounter) :=
  if r.eventType = "approval.decision" then do
    let eventId ← r.payload.text? "event_id"
    let outcome ← r.payload.text? "outcome"
    let e ← getEvent eventId s
    let o ← ApprovalOutcome.all.find? fun o => o.value = outcome
    return (key e.agentId e.workflowId e.authorityRequested, o.counter)
  else if r.eventType = "incident.recorded" then do
    let agentId ← r.payload.text? "agent_id"
    let workflowId ← r.payload.text? "workflow_id"
    let authority ← r.payload.text? "authority_class"
    return ((agentId, workflowId, authority), .incidents)
  else none

/-- The record is of a type that speaks of trust. -/
def AuditRecord.ofTrust (r : AuditRecord) : Bool :=
  r.eventType = "approval.decision" || r.eventType = "incident.recorded"

section

variable {S : Type} [Store S] {s : S} {r : AuditRecord} {id time : String}

/-- A text that a column keeps is the one of the entry. -/
theorem text?_of_isFor {entry : LedgerEntry} (h : r.IsFor entry) {k text : String}
    (hentry : entry.payload.text? k = some text)
    (hcolumn : (jsonColumn entry.payload).text? k = some text) :
    r.payload.text? k = some text := by
  rcases h.2.2 with hpayload | hpayload
  · rw [hpayload, hentry]
  · rw [hpayload, hcolumn]

theorem credit?_decision {d : ApprovalDecision} {e : WorkflowEvent} {actor : Option String}
    (h : r.IsFor ⟨"approval.decision", d.toDict, actor, id, time⟩)
    (he : getEvent d.eventId s = some e) :
    r.credit? s = some (key e.agentId e.workflowId e.authorityRequested, d.outcome.counter) := by
  have hid : r.payload.text? "event_id" = some d.eventId := text?_of_isFor h rfl rfl
  have houtcome : r.payload.text? "outcome" = some d.outcome.value := text?_of_isFor h rfl rfl
  have hfind : (ApprovalOutcome.all.find? fun o => o.value = d.outcome.value) =
      some d.outcome := by
    cases d.outcome <;> rfl
  unfold AuditRecord.credit?
  rw [if_pos h.1, hid, houtcome]
  simp [he, hfind]

theorem credit?_incident {F : Type} [Arithmetic F] {p : IncidentReport} {actor : Option String}
    (h : r.IsFor ⟨"incident.recorded", p.toDict F, actor, id, time⟩) :
    r.credit? s = some (key p.agentId p.workflowId p.authorityClass, .incidents) := by
  have htype : r.eventType ≠ "approval.decision" := h.1.trans_ne (by simp)
  have hagent : r.payload.text? "agent_id" = some p.agentId := text?_of_isFor h rfl rfl
  have hworkflow : r.payload.text? "workflow_id" = some p.workflowId := text?_of_isFor h rfl rfl
  have hclass : r.payload.text? "authority_class" = some p.authorityClass.value :=
    text?_of_isFor h rfl rfl
  unfold AuditRecord.credit?
  rw [if_neg htype, if_pos h.1, hagent, hworkflow, hclass]
  rfl

theorem credit?_of_not_ofTrust (h : r.ofTrust = false) : r.credit? s = none := by
  simp only [AuditRecord.ofTrust, Bool.or_eq_false_iff, decide_eq_false_iff_not] at h
  unfold AuditRecord.credit?
  rw [if_neg h.1, if_neg h.2]

end

/-! ## What counts nothing -/

/-- The call counts nothing and keeps no record of trust. -/
def Call.quiet : Call → Bool
  | .applyDecision _ _ _ _ => false
  | .noteIncident _ _ _ => false
  | c => !c.recordsTrust

section

variable {P : Primitives} {F : Type} {cp : ControlPlane P F} {o : Oracle} {keys : KeyPair P}
variable {replica : Nat}
variable {S C L : Type} [Store S] [CapabilityStateStore C] [AuditLog L]

/-- One more under a counter of a key. -/
def one (k : StatsKey) (c : TrustCounter) : StatsKey → TrustCounter → Nat :=
  fun k' c' => if k = k' ∧ c = c' then 1 else 0

/-- The counters grow by `counted`, and the ledger by records of `recorded`. -/
structure Effect (s : S) (replica : Nat) (counted recorded : StatsKey → TrustCounter → Nat)
    (w w' : World S C L) : Prop where
  counter : ∀ k c, (w'.memories replica).counter k c =
    (w.memories replica).counter k c + counted k c
  records : ∃ rs, AuditLog.records w'.ledger = AuditLog.records w.ledger ++ rs ∧
    ∀ k c, rs.countP (fun r => r.credit? s = some (k, c)) = recorded k c

variable {s : S} {w w' w'' : World S C L} {n m n' m' : StatsKey → TrustCounter → Nat}

omit [CapabilityStateStore C] in
theorem Effect.refl (w : World S C L) : Effect s replica 0 0 w w :=
  ⟨fun _ _ => rfl, [], (List.append_nil _).symm, fun _ _ => rfl⟩

omit [CapabilityStateStore C] in
theorem Effect.trans (h : Effect s replica n m w w') (h' : Effect s replica n' m' w' w'') :
    Effect s replica (n + n') (m + m') w w'' := by
  obtain ⟨rs, hrs, hcount⟩ := h.records
  obtain ⟨rs', hrs', hcount'⟩ := h'.records
  refine ⟨fun k c => ?_, rs ++ rs', ?_, fun k c => ?_⟩
  · rw [h'.counter, h.counter, Nat.add_assoc]
    rfl
  · rw [hrs', hrs, List.append_assoc]
  · rw [List.countP_append, hcount, hcount']
    rfl

omit [CapabilityStateStore C] in
/-- A record that is not of trust counts for nothing. -/
theorem countP_of_not_ofTrust {r : AuditRecord} (h : r.ofTrust = false) (k : StatsKey)
    (c : TrustCounter) : [r].countP (fun r => r.credit? s = some (k, c)) = 0 := by
  simp [credit?_of_not_ofTrust h]

theorem effect_of_quiet [LawfulAuditLog L] {op : Call} (hop : op.quiet = true)
    (w : World S C L) : Effect s replica 0 0 w (worldHandler o keys replica op w).2 := by
  have hcounter (k : StatsKey) (c : TrustCounter) :
      ((worldHandler o keys replica op w).2.memories replica).counter k c =
        (w.memories replica).counter k c := by
    have hcredit : credits k c ⟨op, (worldHandler o keys replica op w).1⟩ = false := by
      cases op <;> first | rfl | cases hop
    rw [counter_worldHandler, hcredit]
    rfl
  have hrefl : Effect s replica 0 0 w w := Effect.refl w
  refine ⟨hcounter, ?_⟩
  cases op with
  | append eventType payload actorId =>
    simp only [worldHandler]
    cases happ : AuditLog.append keys ⟨eventType, payload, actorId,
        newId "aud" (o.uuid w.draws), isoformat (o.time w.reads)⟩ w.ledger with
    | mk result l =>
      cases result with
      | ok r =>
        obtain ⟨r', hl, htype, _⟩ := LawfulAuditLog.append_ok _ _ _ _ _ happ
        have htrust : r'.ofTrust = false := by
          unfold AuditRecord.ofTrust
          rw [htype]
          simpa [Call.quiet, Call.recordsTrust] using hop
        exact ⟨[r'], hl, countP_of_not_ofTrust htrust⟩
      | error err =>
        rw [LawfulAuditLog.append_error _ _ _ _ _ happ]
        exact hrefl.records
  | applyDecision a wf cl d => cases hop
  | noteIncident a wf cl => cases hop
  | _ => exact hrefl.records

theorem ensures_quiet [LawfulAuditLog L] {α : Type} {p : CpProg α}
    (hp : p.Uses fun c => c.quiet = true) (w : World S C L) :
    p.Ensures (worldHandler o keys replica) w fun _ w' => Effect s replica 0 0 w w' :=
  ensures_of_uses hp (fun _ hop _ hs => hs.trans (effect_of_quiet hop _)) (Effect.refl w)

theorem quiet_of_plain {c : Call} (hplain : c.plain = true) (hrecord : c.recordsTrust = false) :
    c.quiet = true := by
  cases c with
  | applyDecision _ _ _ _ => cases hplain
  | noteIncident _ _ _ => cases hplain
  | append _ _ _ => exact congrArg (! ·) hrecord
  | _ => rfl

/-- Only decisions and incidents count. -/
theorem uses_body_quiet [Arithmetic F] {cmd : Command} (hcmd : cmd.trustRecord = none) :
    (cp.body cmd).Uses fun c => c.quiet = true := by
  refine uses_body (fun _ => quiet_of_plain) (fun c hown => ?_) fun t ht => ?_
  · cases cmd with
    | submitDecision d => cases hcmd
    | recordIncident a w k reason actorId => cases hcmd
    | registerAgent agent => rw [show c = _ from hown]; rfl
    | proposeEvent e =>
      rcases hown with ⟨_, now, rfl⟩ | rfl | rfl | ⟨agent, rfl⟩ | ⟨t, entry, rfl⟩ <;> rfl
    | approveDelegationRule rule approverId role => rw [show c = _ from hown]; rfl
    | revokeDelegationRule ruleId actorId reason =>
      rcases hown with ⟨r, rfl⟩ | ⟨a, w, k, rfl⟩ <;> rfl
    | recommendFor a w k => cases hown
    | execute token action outcome => rcases hown with ⟨t, _, rfl⟩ | ⟨i, rfl⟩ <;> rfl
    | verifyForAction t action => rw [show c = _ from hown]; rfl
    | revokeToken tokenId => rw [show c = _ from hown]; rfl
    | purgeExpired =>
      obtain ⟨now, rfl⟩ := hown
      rfl
  · rw [hcmd] at ht
    cases ht

/-! ## Decisions -/

/-- The approver may decide about the event. -/
def ControlPlane.MayDecide (s : S) (e : WorkflowEvent) (d : ApprovalDecision) : Prop :=
  requiresSeparationOfDuties e.authorityRequested = true → ∀ agent,
    getAgent e.agentId s = some agent → d.approverId = agent.ownerId → approves d.outcome = false

/-- The decision is about a stored event, and is counted for it. -/
structure ControlPlane.Counts (replica : Nat) (w : World S C L) (d : ApprovalDecision)
    (e : WorkflowEvent) : Prop where
  stored : getEvent d.eventId w.store = some e
  approver : MayDecide w.store e d
  undecided : d.eventId ∉
    (w.memories replica).decided (key e.agentId e.workflowId e.authorityRequested)

variable (o keys replica) in
theorem run_checkApprover (e : WorkflowEvent) (d : ApprovalDecision) (w : World S C L) :
    (MayDecide w.store e d ∧
        (checkApprover e d).run (worldHandler o keys replica) w = (.ok (), w)) ∨
      ¬ MayDecide w.store e d ∧
        ∃ err, (checkApprover e d).run (worldHandler o keys replica) w = (.error err, w) := by
  unfold checkApprover MayDecide
  cases hduties : requiresSeparationOfDuties e.authorityRequested with
  | false => exact Or.inl ⟨fun h => (by cases h), rfl⟩
  | true =>
    simp only [if_true, perform_bind, run_call, worldHandler, forall_const]
    cases hagent : getAgent e.agentId w.store with
    | none => exact Or.inl ⟨fun _ h => (by cases h), rfl⟩
    | some agent =>
      simp only [Option.some.injEq, forall_eq']
      cases hself : (decide (d.approverId = agent.ownerId) && approves d.outcome) with
      | true =>
        simp only [Bool.and_eq_true, decide_eq_true_eq] at hself
        refine Or.inr ⟨fun h => ?_, _, rfl⟩
        rw [h hself.1] at hself
        cases hself.2
      | false =>
        simp only [Bool.and_eq_false_iff, decide_eq_false_iff_not] at hself
        exact Or.inl ⟨fun howner => hself.resolve_left (not_not.mpr howner), rfl⟩

variable [Arithmetic F] [LawfulAuditLog L] [LawfulRecorder L]

/-- The append of a record of trust, and what follows quietly. -/
theorem ensures_record {k : StatsKey} {c : TrustCounter} {eventType : String} {payload : PyVal}
    {actorId : Option String} {α : Type} {rest : AuditRecord → CpProg α}
    (hcredit : ∀ r : AuditRecord, ∀ id time, r.IsFor ⟨eventType, payload, actorId, id, time⟩ →
      r.credit? s = some (k, c))
    (hrest : ∀ r, (rest r).Uses fun c => c.quiet = true) :
    (ledgerAppend eventType payload actorId >>= rest).Ensures (worldHandler o keys replica) w
      fun _ w' => (payload.Encodable ∧ Effect s replica 0 (one k c) w w') ∨
        (¬ payload.Encodable ∧ Effect s replica 0 0 w w') := by
  rw [ensures_bind]
  refine run_ledgerAppend.mono fun result w' ⟨_, hmemories, hresult⟩ => ?_
  rcases hresult with ⟨hwritten, r, r', rfl, hrecords, id, time, hfor⟩ |
    ⟨hnot, ⟨err, rfl⟩, hrecords⟩
  · have happended : Effect s replica 0 (one k c) w w' := by
      refine ⟨fun k' c' => by rw [hmemories]; rfl, [r'], hrecords, fun k' c' => ?_⟩
      rw [List.countP_singleton, hcredit r' id time hfor]
      simp [one]
    refine (ensures_quiet (s := s) (hrest r) w').mono fun _ w'' hquiet => ?_
    exact Or.inl ⟨hwritten, happended.trans hquiet⟩
  · refine Or.inr ⟨hnot, fun k' c' => by rw [hmemories]; rfl, [], ?_, fun _ _ => rfl⟩
    rw [hrecords, List.append_nil]

omit [LawfulAuditLog L] [LawfulRecorder L] [Arithmetic F] in
theorem ledger_applyDecision (a wf : String) (cl : AuthorityClass) (d : ApprovalDecision)
    (w : World S C L) :
    (worldHandler o keys replica (.applyDecision a wf cl d) w).2.ledger = w.ledger := by
  simp only [worldHandler]
  split <;> rfl

omit [LawfulAuditLog L] [LawfulRecorder L] [Arithmetic F] in
/-- The effect of a call that leaves the ledger. -/
theorem effect_of_call {op : Call}
    (hledger : (worldHandler o keys replica op w).2.ledger = w.ledger)
    (hn : ∀ k c, (credits k c ⟨op, (worldHandler o keys replica op w).1⟩).toNat = n k c) :
    Effect s replica n 0 w (worldHandler o keys replica op w).2 := by
  refine ⟨fun k c => by rw [counter_worldHandler, hn], [], ?_, fun _ _ => rfl⟩
  rw [hledger, List.append_nil]

/-- What a command counts it puts on the record, if that can be written. -/
def Settles (s : S) (replica : Nat) (k : StatsKey) (c : TrustCounter) (written : Prop)
    (w w' : World S C L) : Prop :=
  (written ∧ Effect s replica (one k c) (one k c) w w') ∨
    (¬ written ∧ Effect s replica (one k c) 0 w w')

/-- A decision is turned away, or it is counted and put on the record. -/
theorem ensures_submitDecision {d : ApprovalDecision} (w : World S C L) :
    (submitDecision F d).Ensures (worldHandler o keys replica) w fun _ w' =>
      ((∀ e, ¬ Counts replica w d e) ∧ Effect w.store replica 0 0 w w') ∨
        ∃ e, Counts replica w d e ∧ Settles w.store replica
          (key e.agentId e.workflowId e.authorityRequested) d.outcome.counter
            d.toDict.Encodable w w' := by
  unfold submitDecision
  rw [perform_bind, ensures_call]
  simp only [worldHandler]
  cases hstored : getEvent d.eventId w.store with
  | none =>
    refine Or.inl ⟨fun e h => ?_, Effect.refl w⟩
    rw [h.stored] at hstored
    cases hstored
  | some e =>
    dsimp only
    have hsame {e' : WorkflowEvent} (h : Counts replica w d e') : e' = e :=
      Option.some.inj (h.stored.symm.trans hstored)
    rcases run_checkApprover o keys replica e d w with
      ⟨hmay, hrun⟩ | ⟨hnot, err, hrun⟩
    · rw [ensures_bind_ok hrun, perform_bind, ensures_call]
      obtain ⟨created, now, ⟨hdecided, ⟨err, hanswer⟩, hmemory⟩ |
        ⟨hundecided, stats, hanswer, _, hmemory⟩⟩ := answer_applyDecision o keys replica e.agentId
          e.workflowId e.authorityRequested d w
      · have heffect : Effect w.store replica 0 0 w (worldHandler o keys replica
            (.applyDecision e.agentId e.workflowId e.authorityRequested d) w).2 :=
          effect_of_call (ledger_applyDecision _ _ _ _ _) fun k c => by rw [hanswer]; rfl
        rw [hanswer]
        exact Or.inl ⟨fun e' h => h.undecided (hsame h ▸ hdecided), heffect⟩
      · have heffect : Effect w.store replica
            (one (key e.agentId e.workflowId e.authorityRequested) d.outcome.counter) 0 w
            (worldHandler o keys replica
              (.applyDecision e.agentId e.workflowId e.authorityRequested d) w).2 := by
          refine effect_of_call (ledger_applyDecision _ _ _ _ _) fun k c => ?_
          rw [hanswer]
          by_cases hk : key e.agentId e.workflowId e.authorityRequested = k <;>
            by_cases hc : d.outcome.counter = c <;> simp [credits, one, hk, hc]
        have hcounts : Counts replica w d e := ⟨hstored, hmay, hundecided⟩
        rw [hanswer]
        refine (ensures_record (s := w.store) (fun r id time hfor => credit?_decision hfor hstored)
          fun r => ?_).mono fun _ w' hrecord => Or.inr ⟨e, hcounts, ?_⟩
        · refine uses_bind (uses_recommendFor (fun _ => quiet_of_plain) _ _ _) fun _ => ?_
          exact uses_bind (uses_ledgerAppend rfl) fun _ => trivial
        · rcases hrecord with ⟨hwritten, hrecord⟩ | ⟨hnot, hrecord⟩
          · exact Or.inl ⟨hwritten, by simpa using heffect.trans hrecord⟩
          · exact Or.inr ⟨hnot, by simpa using heffect.trans hrecord⟩
    · rw [ensures_bind_error hrun]
      exact Or.inl ⟨fun e' h => hnot (hsame h ▸ h.approver), Effect.refl w⟩

/-! ## Incidents -/

/-- The statistics are finite numbers. -/
class FiniteStatistics (F : Type) [Arithmetic F] : Prop where
  encodable : ∀ s : TrustStats, (s.toDict F).Encodable

/-- The stored level of a registered agent is one of the ladder. -/
def ControlPlane.HasLevel (s : S) (agentId workflowId : String) (authorityClass : AuthorityClass) :
    Prop :=
  ∀ agent, getAgent agentId s = some agent →
    ∃ l, agent.autonomyFor workflowId authorityClass = .ok l

omit [Arithmetic F] [LawfulAuditLog L] [LawfulRecorder L] in
theorem ensures_deactivateRules {reason : PyStr} (rules : List DelegationRule) (w : World S C L) :
    (deactivateRules reason rules).Ensures (worldHandler o keys replica) w
      fun result _ => ∃ ids, result = .ok ids := by
  induction rules generalizing w with
  | nil => exact ⟨[], rfl⟩
  | cons rule rest ih =>
    unfold deactivateRules
    split
    · rw [perform_bind, ensures_call, ensures_bind]
      refine (ih _).mono fun result w' hresult => ?_
      obtain ⟨ids, rfl⟩ := hresult
      exact ⟨_, rfl⟩
    · exact ih w

omit [Arithmetic F] [LawfulAuditLog L] [LawfulRecorder L] in
/-- The level is lowered and the rules are closed where the stored level can be read. -/
theorem ensures_downgrade_returns {a wf : String} {c : AuthorityClass} {reason : PyStr}
    (w : World S C L) :
    (downgrade a wf c reason).Ensures (worldHandler o keys replica) w
      fun result _ => (∃ ids, result = .ok ids) ↔ HasLevel w.store a wf c := by
  unfold downgrade HasLevel
  rw [perform_bind, ensures_call]
  simp only [worldHandler]
  cases hagent : getAgent a w.store with
  | none => simp
  | some agent =>
    simp only [Option.some.injEq, forall_eq']
    rw [perform_bind, ensures_call, ensures_bind, ensures_ofExcept]
    have hlevel : (withIncident agent).autonomyFor wf c = agent.autonomyFor wf c := rfl
    rw [hlevel]
    cases agent.autonomyFor wf c with
    | error err => simp
    | ok current =>
      dsimp only
      rw [perform_bind, ensures_call, perform_bind, ensures_call]
      refine (ensures_deactivateRules _ _).mono fun result _ hresult => ?_
      exact iff_of_true hresult ⟨current, rfl⟩

theorem encodable_report [FiniteStatistics F] {p : IncidentReport} :
    (p.toDict F).Encodable ↔ p.reason.isUtf8 = true := by
  rw [IncidentReport.toDict, encodable_of_textKeys rfl]
  simp only [List.forall_mem_cons]
  simp [FiniteStatistics.encodable]

/-- An incident is counted, and put on the record where the stored level can be read and
the reason written. -/
theorem ensures_incidentRecorded [FiniteStatistics F] {a wf : String} {c : AuthorityClass}
    {reason : PyStr} {actorId : String} (w : World S C L) :
    (recordIncident F a wf c reason actorId).Ensures (worldHandler o keys replica) w
      fun _ w' => Settles w.store replica (key a wf c) .incidents
        (HasLevel w.store a wf c ∧ reason.isUtf8 = true) w w' := by
  unfold recordIncident
  rw [perform_bind, ensures_call, perform_bind, ensures_call]
  let noted := (worldHandler o keys replica (.noteIncident a wf c) w).2
  let counted := (worldHandler o keys replica .countIncident noted).2
  have hnoted : Effect w.store replica (one (key a wf c) .incidents) 0 w noted := by
    refine effect_of_call rfl fun k c' => ?_
    by_cases hk : key a wf c = k <;> by_cases hc : c' = .incidents <;>
      simp [credits, one, hk, hc, eq_comm]
  have hcounted : Effect w.store replica (one (key a wf c) .incidents) 0 w counted :=
    hnoted.trans (effect_of_quiet rfl noted)
  change Ensures _ (downgrade a wf c reason >>= _) counted _
  rw [ensures_bind]
  have hquiet : (downgrade a wf c reason).Uses fun c => c.quiet = true :=
    uses_downgrade (fun _ => quiet_of_plain) (fun _ => rfl) (fun _ => rfl) fun _ _ => rfl
  have hreturns : Ensures (worldHandler o keys replica) (downgrade a wf c reason) counted
      fun result _ => (∃ ids, result = .ok ids) ↔ HasLevel w.store a wf c :=
    ensures_downgrade_returns counted
  have heffect : Ensures (worldHandler o keys replica) (downgrade a wf c reason) counted
      fun _ w' => Effect w.store replica 0 0 counted w' := ensures_quiet hquiet counted
  refine (hreturns.and heffect).mono fun result w' hlower => ?_
  obtain ⟨hreturns, heffect⟩ := hlower
  have hlowered : Effect w.store replica (one (key a wf c) .incidents) 0 w w' := by
    simpa using hcounted.trans heffect
  cases result with
  | error err =>
    refine Or.inr ⟨fun h => ?_, hlowered⟩
    obtain ⟨ids, hids⟩ := hreturns.mpr h.1
    cases hids
  | ok ids =>
    have hlevel : HasLevel w.store a wf c := hreturns.mp ⟨ids, rfl⟩
    have hrevoked : Effect w.store replica (one (key a wf c) .incidents) 0 w
        (worldHandler o keys replica (.cap (.revokeScope a wf c.value)) w').2 := by
      simpa using hlowered.trans (effect_of_quiet rfl w')
    change Ensures _ (call (.cap (.revokeScope a wf c.value)) >>= _) w' _
    rw [perform_bind, ensures_call]
    refine (ensures_record (s := w.store) (fun r id time hfor => credit?_incident hfor)
      fun r => ?_).mono fun _ w'' hrecord => ?_
    · trivial
    · rw [encodable_report] at hrecord
      rcases hrecord with ⟨hwritten, hrecord⟩ | ⟨hnot, hrecord⟩
      · exact Or.inl ⟨⟨hlevel, hwritten⟩, by simpa using hrevoked.trans hrecord⟩
      · exact Or.inr ⟨fun h => hnot h.2, by simpa using hrevoked.trans hrecord⟩

end

/-! ## Runs -/

section

variable {P : Primitives} {F : Type} [Arithmetic F] {cp : ControlPlane P F} {o : Oracle}
variable {S C L : Type} [Store S] [CapabilityStateStore C] [AuditLog L]
variable {turns : List (CpTurn F S C L)} {w : World S C L} {replica : Nat}

/-- The records that a turn has added. -/
def newRecords (y : CpTurn F S C L) : List AuditRecord :=
  (AuditLog.records y.after.ledger).drop (AuditLog.records y.before.ledger).length

/-- How many records of a run speak of a counter of a key.  The event of a decision is the
one that the decision has found. -/
def recordedCount (turns : List (CpTurn F S C L)) (k : StatsKey) (c : TrustCounter) : Nat :=
  (turns.map fun y =>
    (newRecords y).countP fun r => r.credit? y.before.store = some (k, c)).sum

/-- Every counter of the replica is what the records of the run say. -/
def Recorded (replica : Nat) (turns : List (CpTurn F S C L)) (w : World S C L) : Prop :=
  ∀ k c, (w.memories replica).counter k c = recordedCount turns k c

/-- What the turn counts can be put on the record: the decision can be written, or the
reason of the incident can and the stored level of the agent is one of the ladder. -/
structure OnRecord (y : CpTurn F S C L) : Prop where
  decision : ∀ d e, y.request.2 = .submitDecision d → Counts y.request.1 y.before d e →
    d.toDict.Encodable
  incident : ∀ a wf c reason actorId, y.request.2 = .recordIncident a wf c reason actorId →
    HasLevel y.before.store a wf c ∧ reason.isUtf8 = true

theorem one_ne_zero (k : StatsKey) (c : TrustCounter) : one k c ≠ 0 := by
  intro h
  have := congrFun (congrFun h k) c
  simp [one] at this

omit [CapabilityStateStore C] in
theorem Settles.effect {s : S} {k : StatsKey} {c : TrustCounter} {written : Prop}
    {w w' : World S C L} (h : Settles s replica k c written w w') :
    ∃ n m, Effect s replica n m w w' ∧ (written ↔ n = m) := by
  rcases h with ⟨hwritten, heffect⟩ | ⟨hnot, heffect⟩
  · exact ⟨_, _, heffect, iff_of_true hwritten rfl⟩
  · exact ⟨_, _, heffect, iff_of_false hnot (one_ne_zero k c)⟩

variable [LawfulAuditLog L] [LawfulRecorder L] [FiniteStatistics F]

/-- A turn counts what it records exactly if that can be put on the record. -/
theorem effect_of_serve {y : CpTurn F S C L} (hy : y = (cp.system o).serve y.before y.request) :
    ∃ n m, Effect y.before.store y.request.1 n m y.before y.after ∧ (OnRecord y ↔ n = m) := by
  obtain ⟨w, ⟨replica, cmd⟩, calls, result, w'⟩ := y
  have hafter : w' = ((cp.body cmd).run (worldHandler o cp.ledgerKeys replica) w).2 :=
    congrArg Turn.after hy
  -- what holds of the program of a command holds of its turn
  have served {α : Type} {p : CpProg α} {f : α → Answer F} {I : World S C L → Prop}
      (hbody : cp.body cmd = (p >>= fun a => .done (f a)))
      (hp : p.Ensures (worldHandler o cp.ledgerKeys replica) w fun _ w' => I w') : I w' := by
    rw [hafter, hbody]
    exact ensures_bind_of_keeps hp fun _ _ h => h
  by_cases htrust : cmd.trustRecord = none
  · refine ⟨0, 0, ?_, iff_of_true ⟨?_, ?_⟩ rfl⟩
    · rw [hafter]
      exact ensures_quiet (uses_body_quiet htrust) w
    · rintro d e rfl
      cases htrust
    · rintro a wf c reason actorId rfl
      cases htrust
  · cases cmd with
    | submitDecision d =>
      rcases served rfl (ensures_submitDecision w) with ⟨hnot, heffect⟩ | ⟨e, hcounts, hsettles⟩
      · refine ⟨0, 0, heffect, iff_of_true ⟨fun d' e' hd he => ?_,
          fun _ _ _ _ _ h => nomatch h⟩ rfl⟩
        cases hd
        exact absurd he (hnot e')
      · obtain ⟨n, m, heffect, hwritten⟩ := hsettles.effect
        refine ⟨n, m, heffect,
          Iff.trans ⟨fun h => h.decision d e rfl hcounts, fun h => ?_⟩ hwritten⟩
        exact ⟨fun d' e' hd _ => by cases hd; exact h, fun _ _ _ _ _ h => nomatch h⟩
    | recordIncident a wf c reason actorId =>
      obtain ⟨n, m, heffect, hwritten⟩ := (served rfl (ensures_incidentRecorded w)).effect
      refine ⟨n, m, heffect, Iff.trans ⟨fun h => h.incident a wf c reason actorId rfl,
        fun h => ?_⟩ hwritten⟩
      exact ⟨fun _ _ h => (nomatch h), fun _ _ _ _ _ hr => by cases hr; exact h⟩
    | _ => exact absurd rfl htrust

omit [CapabilityStateStore C] [LawfulAuditLog L] [LawfulRecorder L] [FiniteStatistics F]
  [Arithmetic F] in
theorem countP_newRecords {y : CpTurn F S C L} {n m : StatsKey → TrustCounter → Nat}
    (h : Effect y.before.store replica n m y.before y.after) (k : StatsKey) (c : TrustCounter) :
    (newRecords y).countP (fun r => r.credit? y.before.store = some (k, c)) = m k c := by
  obtain ⟨rs, hrs, hcount⟩ := h.records
  unfold newRecords
  rw [hrs, List.drop_left]
  exact hcount k c

omit [CapabilityStateStore C] [LawfulAuditLog L] [LawfulRecorder L] [FiniteStatistics F]
  [Arithmetic F] in
/-- One more turn keeps the counters on the record exactly if it counts what it records. -/
theorem recorded_snoc_iff {y : CpTurn F S C L} {n m : StatsKey → TrustCounter → Nat}
    (hbefore : Recorded replica turns y.before)
    (h : Effect y.before.store replica n m y.before y.after) :
    Recorded replica (turns ++ [y]) y.after ↔ n = m := by
  have hturn (k : StatsKey) (c : TrustCounter) :
      (y.after.memories replica).counter k c = recordedCount (turns ++ [y]) k c ↔
        n k c = m k c := by
    have hsum : recordedCount (turns ++ [y]) k c = recordedCount turns k c + m k c := by
      simp [recordedCount, countP_newRecords h]
    rw [hsum, h.counter, hbefore k c]
    exact Nat.add_left_cancel_iff
  constructor
  · intro hafter
    funext k c
    exact (hturn k c).mp (hafter k c)
  · rintro rfl k c
    exact (hturn k c).mpr rfl

/-- In a run of one control plane every counter is what the ledger says, in every state
that is reached, exactly if every turn can put on the record what it counts. -/
theorem trust_is_on_record_iff (h : (cp.system o).Runs (World.initial S C L) turns w)
    (hone : ∀ y ∈ turns, y.request.1 = replica) :
    (Recorded replica turns w ∧
        ∀ (i : Nat) y, turns[i]? = some y → Recorded replica (turns.take i) y.before) ↔
      ∀ y ∈ turns, OnRecord y := by
  induction h with
  | nil => exact iff_of_true ⟨fun _ _ => rfl, fun _ _ h => nomatch h⟩ fun _ h => nomatch h
  | @snoc turns t h r ih =>
    have ih := ih fun y hy => hone y (List.mem_append_left _ hy)
    let y := (cp.system o).serve t r
    have hreplica : y.request.1 = replica := hone y (by simp [y])
    obtain ⟨n, m, heffect, hrecord⟩ := effect_of_serve (show y = (cp.system o).serve t r from rfl)
    rw [hreplica] at heffect
    have hlast : (turns ++ [y])[turns.length]? = some y := List.getElem?_concat_length
    have htake : (turns ++ [y]).take turns.length = turns := List.take_left
    rw [List.forall_mem_append, List.forall_mem_singleton, ← ih]
    constructor
    · rintro ⟨hafter, hall⟩
      have hbefore : Recorded replica turns y.before := htake ▸ hall _ y hlast
      refine ⟨⟨hbefore, fun i x hi => ?_⟩, ?_⟩
      · have hlt := (List.getElem?_eq_some_iff.mp hi).1
        have hx := hall i x ((List.getElem?_append_left hlt).trans hi)
        rwa [List.take_append_of_le_length (Nat.le_of_lt hlt)] at hx
      · exact hrecord.mpr ((recorded_snoc_iff hbefore heffect).mp hafter)
    · rintro ⟨⟨hbefore, hall⟩, hon⟩
      refine ⟨(recorded_snoc_iff hbefore heffect).mpr (hrecord.mp hon), fun i x hi => ?_⟩
      rcases Nat.lt_or_ge i turns.length with hlt | hge
      · rw [List.getElem?_append_left hlt] at hi
        rw [List.take_append_of_le_length (Nat.le_of_lt hlt)]
        exact hall i x hi
      · rw [List.getElem?_append_right hge, List.getElem?_singleton] at hi
        split at hi
        · cases hi
          rw [show i = turns.length by omega, htake]
          exact hbefore
        · cases hi

end

/-! ### A decision that cannot be written -/

instance : FiniteStatistics Dyadic where
  encodable s := by
    rw [TrustStats.toDict, encodable_of_textKeys rfl]
    simp only [List.forall_mem_cons]
    simp
    exact ⟨rfl, rfl, rfl, rfl, rfl⟩

/-- A human approves the demo event with these modifications. -/
def demoDecision (modifications : Mapping) : ApprovalDecision where
  eventId := "evt_1"
  approverId := "approver"
  outcome := .modifiedAndApproved
  approverRole := none
  rationale := .utf8 "fine"
  modifications := modifications
  conditions := []
  createdDelegationRuleId := none
  decisionId := "dec_1"
  timestamp := "2026-01-01T00:00:00+00:00"

/-- Register, propose and decide. -/
def decisionDemo (modifications : Mapping) : List (Nat × Command) :=
  [(0, .registerAgent demoAgent), (0, .proposeEvent (demoEvent true)),
    (0, .submitDecision (demoDecision modifications))]

/-- A `nan` among the modifications is counted, and is not on the record. -/
theorem decision_off_the_record :
    let turns := demoSystem.history (World.initial _ _ _)
      (decisionDemo [(.utf8 "x", .float (.nan 0))])
    let w : SqlWorld := demoSystem.final (World.initial _ _ _)
      (decisionDemo [(.utf8 "x", .float (.nan 0))])
    demoSystem.Runs (World.initial _ _ _) turns w ∧ (∀ y ∈ turns, y.request.1 = 0) ∧
      ¬ (Recorded 0 turns w ∧
        ∀ (i : Nat) y, turns[i]? = some y → Recorded 0 (turns.take i) y.before) := by
  intro turns w
  have hone : ∀ y ∈ turns, y.request.1 = 0 := by
    intro y hy
    have hmem := request_mem_of_mem_history hy
    simp only [decisionDemo, List.mem_cons, List.not_mem_nil, or_false] at hmem
    rcases hmem with h | h | h <;> rw [h]
  refine ⟨runs_history _ _, hone, fun h => ?_⟩
  have hall := (trust_is_on_record_iff (runs_history _ _) hone).mp h
  let t : SqlWorld := demoSystem.final (World.initial _ _ _)
    [(0, .registerAgent demoAgent), (0, .proposeEvent (demoEvent true))]
  have hfound : ((getEvent "evt_1" t.store).any fun e =>
      !requiresSeparationOfDuties e.authorityRequested &&
        decide ("evt_1" ∉ (t.memories 0).decided
          (key e.agentId e.workflowId e.authorityRequested))) = true := by
    decide +kernel
  obtain ⟨e, hstored, he⟩ := (Option.any_eq_true _ _).mp hfound
  simp only [Bool.and_eq_true, Bool.not_eq_true', decide_eq_true_eq] at he
  have hcounts : Counts 0 t (demoDecision [(.utf8 "x", .float (.nan 0))]) e :=
    ⟨hstored, fun h => absurd (h.symm.trans he.1) (by decide), he.2⟩
  have hlast : demoSystem.serve t
      (0, .submitDecision (demoDecision [(.utf8 "x", .float (.nan 0))])) ∈ turns :=
    List.mem_cons_of_mem _ (List.mem_cons_of_mem _ List.mem_cons_self)
  have hwritten := (hall _ hlast).decision _ e rfl hcounts
  have hraises :
      (serializable (demoDecision [(.utf8 "x", .float (.nan 0))]).toDict).isOk = false := by
    decide
  rw [hwritten.serializable] at hraises
  cases hraises

/-- With modifications that can be written, what is counted is on the record. -/
theorem decision_on_the_record :
    let turns := demoSystem.history (World.initial _ _ _) (decisionDemo [])
    let w : SqlWorld := demoSystem.final (World.initial _ _ _) (decisionDemo [])
    Recorded 0 turns w ∧
      ∀ (i : Nat) y, turns[i]? = some y → Recorded 0 (turns.take i) y.before := by
  intro turns w
  have hmem : ∀ y ∈ turns, y.request ∈ decisionDemo [] := fun y hy => request_mem_of_mem_history hy
  refine (trust_is_on_record_iff (runs_history _ _) fun y hy => ?_).mpr fun y hy => ⟨?_, ?_⟩
  · have h := hmem y hy
    simp only [decisionDemo, List.mem_cons, List.not_mem_nil, or_false] at h
    rcases h with h | h | h <;> rw [h]
  · intro d e hd _
    have h := hmem y hy
    simp only [decisionDemo, List.mem_cons, List.not_mem_nil, or_false] at h
    rcases h with h | h | h <;> rw [h] at hd <;> cases hd
    exact ⟨rfl, rfl⟩
  · intro a wf c reason actorId hr
    have h := hmem y hy
    simp only [decisionDemo, List.mem_cons, List.not_mem_nil, or_false] at h
    rcases h with h | h | h <;> rw [h] at hr <;> cases hr

end EarnedAutonomy
