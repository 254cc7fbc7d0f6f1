import EarnedAutonomy.Core.ControlPlane
import EarnedAutonomy.Core.LedgerChain
import EarnedAutonomy.Python.Encodable

/-!
# What the ledger can record

A ledger raises for a payload that cannot be encoded, after everything else has
happened.  For each payload of the control plane, these lemmas say which of the
values it was built from decide that.

* `LawfulRecorder`: an append returns exactly for payloads that can be encoded.
* `Packet.encodable_ledgerDict` and its like, one for each record.
-/

namespace EarnedAutonomy

open OrderedDict

/-- A ledger accepts what can be encoded, and nothing else. -/
class LawfulRecorder (L : Type) [AuditLog L] : Prop where
  append_ok_iff : ∀ {P : Primitives} (keys : KeyPair P) (e : LedgerEntry) (l : L),
    (∃ r, (AuditLog.append keys e l).1 = .ok r) ↔ e.payload.Encodable

/-- An append that answers with the record it has made returns where it has made one. -/
theorem exists_answer_iff {L : Type} (made : Except PyError AuditRecord) (keep : AuditRecord → L)
    (l : L) :
    (∃ r : AuditRecord, (match made with
      | .ok record => ((.ok record, keep record) : Except PyError AuditRecord × L)
      | .error err => (.error err, l)).1 = .ok r) ↔ ∃ r, made = .ok r := by
  cases made <;> simp

instance : LawfulRecorder AuditLedger where
  append_ok_iff keys e l := by
    rw [← exists_sealRecord_iff]
    exact exists_answer_iff _ _ l

instance : LawfulRecorder SqlAuditLedger where
  append_ok_iff keys e l := by
    rw [← exists_sealRecord_iff]
    exact exists_answer_iff _ _ l

/-! ## The records -/

@[simp] theorem encodable_optStr {s : Option PyStr} :
    (PyVal.optStr s).Encodable ↔ ∀ t ∈ s, t.isUtf8 = true := by
  cases s with
  | none => simp [PyVal.optStr]
  | some t => simp [PyVal.optStr]

/-- The texts and the float of an event, with its evidence and metadata. -/
structure WorkflowEvent.Recordable (e : WorkflowEvent) : Prop where
  workflowStage : e.workflowStage.isUtf8 = true
  intent : e.intent.isUtf8 = true
  proposedNextState : e.proposedNextState.isUtf8 = true
  expectedEffect : e.expectedEffect.isUtf8 = true
  evidence : ∀ x ∈ e.evidence, x.toDict.Encodable
  confidence : e.confidence.isFinite = true
  metadata : e.metadata.toVal.Encodable

namespace WorkflowEvent

variable {e : WorkflowEvent}

theorem encodable_toDict : e.toDict.Encodable ↔ e.Recordable := by
  rw [toDict, encodable_of_textKeys rfl]
  simp only [List.forall_mem_cons]
  simp [-encodable_mapping]
  constructor
  · rintro ⟨hstage, hintent, hnext, heffect, hevidence, hconfidence, hmetadata⟩
    exact ⟨hstage, hintent, hnext, heffect, hevidence, hconfidence, hmetadata⟩
  · rintro ⟨hstage, hintent, hnext, heffect, hevidence, hconfidence, hmetadata⟩
    exact ⟨hstage, hintent, hnext, heffect, hevidence, hconfidence, hmetadata⟩

/-- What an agent can sign the ledger can record. -/
theorem encodable_signingDict : e.signingDict.Encodable ↔ e.Recordable := by
  rw [signingDict, encodable_of_textKeys rfl]
  simp only [List.forall_mem_cons]
  simp [-encodable_mapping]
  constructor
  · rintro ⟨hstage, hintent, hnext, heffect, hevidence, hconfidence, hmetadata⟩
    exact ⟨hstage, hintent, hnext, heffect, hevidence, hconfidence, hmetadata⟩
  · rintro ⟨hstage, hintent, hnext, heffect, hevidence, hconfidence, hmetadata⟩
    exact ⟨hstage, hintent, hnext, heffect, hevidence, hconfidence, hmetadata⟩

/-- The injected workflows are texts. -/
theorem recordable_withApprovedWorkflows {agent : AgentIdentity} :
    (ControlPlane.withApprovedWorkflows e agent).Recordable ↔ e.Recordable := by
  have hmetadata : (ControlPlane.withApprovedWorkflows e agent).metadata.toVal.Encodable ↔
      e.metadata.toVal.Encodable := by
    change (Mapping.toVal (Dict.setdefault e.metadata "_approved_workflows"
      (textsToVal agent.approvedWorkflows))).Encodable ↔ _
    unfold Dict.setdefault
    split
    · rfl
    · rename_i hnone
      rw [Option.not_isSome_iff_eq_none] at hnone
      rw [Dict.set_eq_append (Dict.get?_eq_none_iff.mp hnone), encodable_mapping,
        encodable_mapping, List.forall_mem_append]
      refine and_iff_left ?_
      rw [List.forall_mem_singleton]
      exact ⟨rfl, encodable_textsToVal _⟩
  constructor
  · rintro ⟨hstage, hintent, hnext, heffect, hevidence, hconfidence, h⟩
    exact ⟨hstage, hintent, hnext, heffect, hevidence, hconfidence, hmetadata.mp h⟩
  · rintro ⟨hstage, hintent, hnext, heffect, hevidence, hconfidence, h⟩
    exact ⟨hstage, hintent, hnext, heffect, hevidence, hconfidence, hmetadata.mpr h⟩

end WorkflowEvent

/-- A decision can be recorded if its texts and its rate can. -/
theorem PolicyDecision.encodable_toDict {d : PolicyDecision} :
    d.toDict.Encodable ↔ d.reason.isUtf8 = true ∧ (∀ t ∈ d.policyName, t.isUtf8 = true) ∧
      (∀ t ∈ d.requiredApproverRole, t.isUtf8 = true) ∧ d.sampleRate.isFinite = true := by
  rw [toDict, encodable_of_textKeys rfl]
  simp only [List.forall_mem_cons]
  cases d.autonomyCeiling <;> simp

theorem DelegationRule.encodable_toDict {r : DelegationRule} (h : r.toDict.Encodable) :
    r.conditions.toVal.Encodable := by
  rw [toDict, encodable_of_textKeys rfl] at h
  exact h ("conditions", r.conditions.toVal) (by simp [entries])

/-- A token can be signed if its conditions can be written. -/
theorem CapabilityToken.exists_signingPayload_iff {t : CapabilityToken} :
    (∃ b, t.signingPayload = .ok b) ↔ t.conditions.toVal.Encodable := by
  rw [signingPayload, ← encodable_iff, encodable_of_textKeys rfl, signingEntries]
  simp only [List.forall_mem_cons]
  simp [-encodable_mapping]

namespace ControlPlane

/-- A packet can be recorded if the event, the agent, the decision, the reasons and the
rule can. -/
theorem Packet.encodable_ledgerDict {p : Packet} :
    p.ledgerDict.Encodable ↔ p.event.Recordable ∧ p.agent.toDict.Encodable ∧
      p.decision.toDict.Encodable ∧ (∀ t ∈ p.classifierReasons, t.isUtf8 = true) ∧
      ∀ r ∈ p.matchingRule, r.toDict.Encodable := by
  rw [ledgerDict, approvalPacket, encodable_of_textKeys rfl]
  simp only [List.forall_mem_cons]
  rw [encodable_of_textKeys rfl]
  simp only [List.forall_mem_cons]
  simp [-encodable_mapping, WorkflowEvent.encodable_toDict]
  intro hevent hagent hdecision hreasons
  have hreason := (PolicyDecision.encodable_toDict.mp hdecision).1
  cases p.matchingRule with
  | none =>
    simp [hreason, hevent.intent, hevent.workflowStage, hevent.proposedNextState,
      hevent.expectedEffect]
    refine ⟨hevent.evidence, ?_, hreasons⟩
    split <;> simp
  | some rule =>
    simp [hreason, hevent.intent, hevent.workflowStage, hevent.proposedNextState,
      hevent.expectedEffect]
    refine fun _ => ⟨hevent.evidence, ?_, hreasons⟩
    split <;> simp

end ControlPlane

end EarnedAutonomy
