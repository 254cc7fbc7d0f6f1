import EarnedAutonomy.Core.Recordable
import EarnedAutonomy.Python.KeyOrder

/-!
# What a signed payload fixes

* `WorkflowEvent.sameSigned_of_payload`: two events with one payload agree on every field
  but the event id, the timestamp and the signature.
* `CapabilityToken.sameSigned_of_payload`: two tokens with one payload agree on every
  field but the signature.

Metadata, evidence metadata and conditions are JSON values with text keys, and agree up
to the order of their keys.
-/

namespace EarnedAutonomy

open PyVal

/-! ## Fields of one object -/

section

variable {d d' : List (PyKey × PyVal)} {k : PyKey} {v v' : PyVal}

/-- The keys of a record are its field names, each once. -/
def fieldNames (d : List (PyKey × PyVal)) : Bool :=
  textKeys d && keysDistinct (d.map Prod.fst)

theorem jsonValue_of_fieldNames (h : fieldNames d = true) :
    jsonValue (.dict d) = true ↔ ∀ e ∈ d, jsonValue e.2 = true := by
  rw [fieldNames, Bool.and_eq_true] at h
  rw [jsonValue, h.2, Bool.true_and, jsonEntries_iff]
  refine forall₂_congr fun e he => and_iff_right ?_
  have hkey := List.all_eq_true.mp h.1 e he
  split at hkey
  · rename_i s hs
    exact ⟨.utf8 s, hs⟩
  · cases hkey

/-- Alike records have alike fields. -/
theorem PyVal.Alike.field (h : (dict d).Alike (dict d')) (hv : (k, v) ∈ d) (hv' : (k, v') ∈ d') :
    v.Alike v' := by
  obtain ⟨⟨t, ht⟩, _⟩ := (jsonValue_dict_iff.mp h.left).2 _ hv
  obtain rfl : k = .str t := ht
  have hlookup := h.lookup (.str t)
  rw [(lookup_eq_some_iff h.left).mpr ⟨t, rfl, hv⟩,
    (lookup_eq_some_iff h.right).mpr ⟨t, rfl, hv'⟩] at hlookup
  cases hlookup with
  | some hvv => exact hvv

end

@[simp] theorem jsonValue_text (s : String) : jsonValue (.text s) = true := rfl

@[simp] theorem jsonValue_str (s : PyStr) : jsonValue (.str s) = true := rfl

@[simp] theorem jsonValue_bool (b : Bool) : jsonValue (.bool b) = true := rfl

@[simp] theorem jsonValue_int (n : Int) : jsonValue (.int n) = true := rfl

@[simp] theorem jsonValue_float (f : PyFloat) : jsonValue (.float f) = true := rfl

@[simp] theorem jsonValue_none : jsonValue .none = true := rfl

@[simp] theorem jsonValue_optText (s : Option String) : jsonValue (.optText s) = true := by
  cases s <;> rfl

@[simp] theorem jsonValue_optStr (s : Option PyStr) : jsonValue (.optStr s) = true := by
  cases s <;> rfl

theorem eq_of_alike_optStr {s t : Option PyStr} (h : (optStr s).Alike (optStr t)) : s = t := by
  have hsorted := h.sorted
  cases s with
  | none =>
    cases t with
    | none => rfl
    | some t => cases hsorted
  | some s =>
    cases t with
    | none => cases hsorted
    | some t => exact congrArg some (eq_of_alike_str h)

theorem eq_of_alike_optFloat {f g : Option PyFloat}
    (h : PyVal.Alike (match f with
      | some f => .float f
      | Option.none => .none) (match g with
      | some g => .float g
      | Option.none => .none)) : f = g := by
  have hsorted := h.sorted
  cases f with
  | none =>
    cases g with
    | none => rfl
    | some g => cases hsorted
  | some f =>
    cases g with
    | none => cases hsorted
    | some g => exact congrArg some (eq_of_alike_float h)

/-! ## Events -/

/-- The same evidence, up to the order of keys. -/
structure EvidenceItem.Same (x y : EvidenceItem) : Prop where
  source : x.source = y.source
  claim : x.claim = y.claim
  url : x.url = y.url
  confidence : x.confidence = y.confidence
  metadata : x.metadata.toVal.Alike y.metadata.toVal

theorem EvidenceItem.Same.symm {x y : EvidenceItem} (h : x.Same y) : y.Same x :=
  ⟨h.source.symm, h.claim.symm, h.url.symm, h.confidence.symm, h.metadata.symm⟩

theorem EvidenceItem.jsonValue_toDict {x : EvidenceItem} :
    jsonValue x.toDict = true ↔ jsonValue x.metadata.toVal = true := by
  rw [toDict, jsonValue_of_fieldNames rfl]
  simp only [List.forall_mem_cons]
  cases x.confidence <;> simp

theorem EvidenceItem.same_of_alike {x y : EvidenceItem} (h : x.toDict.Alike y.toDict) :
    x.Same y := by
  have field {k : PyKey} {v v' : PyVal} := @PyVal.Alike.field _ _ k v v' h
  refine ⟨eq_of_alike_str (field (k := "source") ?_ ?_),
    eq_of_alike_str (field (k := "claim") ?_ ?_), eq_of_alike_optStr (field (k := "url") ?_ ?_),
    eq_of_alike_optFloat (field (k := "confidence") ?_ ?_), field (k := "metadata") ?_ ?_⟩
  -- the two optional floats are matched in another place
  case refine_7 | refine_8 => exact .tail _ (.tail _ (.tail _ (.head _)))
  all_goals simp

namespace WorkflowEvent

/-- The same signed fields, up to the order of keys. -/
structure SameSigned (e e' : WorkflowEvent) : Prop where
  agentId : e.agentId = e'.agentId
  humanOwnerId : e.humanOwnerId = e'.humanOwnerId
  workflowId : e.workflowId = e'.workflowId
  workflowStage : e.workflowStage = e'.workflowStage
  eventType : e.eventType = e'.eventType
  intent : e.intent = e'.intent
  authorityRequested : e.authorityRequested = e'.authorityRequested
  proposedNextState : e.proposedNextState = e'.proposedNextState
  expectedEffect : e.expectedEffect = e'.expectedEffect
  evidence : List.Forall₂ EvidenceItem.Same e.evidence e'.evidence
  confidence : e.confidence = e'.confidence
  requiresExecution : e.requiresExecution = e'.requiresExecution
  nonce : e.nonce = e'.nonce
  metadata : e.metadata.toVal.Alike e'.metadata.toVal

theorem SameSigned.symm {e e' : WorkflowEvent} (h : e.SameSigned e') : e'.SameSigned e :=
  ⟨h.agentId.symm, h.humanOwnerId.symm, h.workflowId.symm, h.workflowStage.symm,
    h.eventType.symm, h.intent.symm, h.authorityRequested.symm, h.proposedNextState.symm,
    h.expectedEffect.symm, h.evidence.flip.imp fun _ _ => EvidenceItem.Same.symm,
    h.confidence.symm, h.requiresExecution.symm, h.nonce.symm, h.metadata.symm⟩

/-- The metadata of the event and of its evidence are JSON values with text keys. -/
def JsonMetadata (e : WorkflowEvent) : Prop :=
  jsonValue e.metadata.toVal = true ∧ ∀ x ∈ e.evidence, jsonValue x.metadata.toVal = true

instance (e : WorkflowEvent) : Decidable e.JsonMetadata :=
  inferInstanceAs (Decidable (_ ∧ ∀ x ∈ e.evidence, _))

theorem JsonMetadata.jsonValue_signingDict {e : WorkflowEvent} (h : e.JsonMetadata) :
    jsonValue e.signingDict = true := by
  have hevidence : jsonValue (.list (e.evidence.map EvidenceItem.toDict)) = true := by
    rw [jsonValue, jsonItems_iff, List.forall_mem_map]
    exact fun x hx => EvidenceItem.jsonValue_toDict.mpr (h.2 x hx)
  rw [signingDict, jsonValue_of_fieldNames rfl]
  simp only [List.forall_mem_cons]
  simp [hevidence, h.1]

/-- The payload fixes every signed field. -/
theorem sameSigned_of_payload {e e' : WorkflowEvent} {b : Bytes} (hjson : e.JsonMetadata)
    (hjson' : e'.JsonMetadata) (hb : e.signingPayload = .ok b) (hb' : e'.signingPayload = .ok b) :
    e.SameSigned e' := by
  have halike : e.signingDict.Alike e'.signingDict := alike_of_canonicalBytes
    hjson.jsonValue_signingDict hjson'.jsonValue_signingDict hb hb'
  have field {k : PyKey} {v v' : PyVal} := @PyVal.Alike.field _ _ k v v' halike
  have hevidence : List.Forall₂ EvidenceItem.Same e.evidence e'.evidence := by
    have hlist : PyVal.Alike (.list (e.evidence.map EvidenceItem.toDict))
        (.list (e'.evidence.map EvidenceItem.toDict)) :=
      field (k := "evidence") (by simp) (by simp)
    have hitems := hlist.items
    rw [List.forall₂_map_left_iff, List.forall₂_map_right_iff] at hitems
    exact hitems.imp fun _ _ => EvidenceItem.same_of_alike
  refine ⟨eq_of_alike_text (field (k := "agent_id") ?_ ?_),
    eq_of_alike_text (field (k := "human_owner_id") ?_ ?_),
    eq_of_alike_text (field (k := "workflow_id") ?_ ?_),
    eq_of_alike_str (field (k := "workflow_stage") ?_ ?_),
    WorkflowEventType.value_injective (eq_of_alike_text (field (k := "event_type") ?_ ?_)),
    eq_of_alike_str (field (k := "intent") ?_ ?_),
    AuthorityClass.value_injective (eq_of_alike_text (field (k := "authority_requested") ?_ ?_)),
    eq_of_alike_str (field (k := "proposed_next_state") ?_ ?_),
    eq_of_alike_str (field (k := "expected_effect") ?_ ?_), hevidence,
    eq_of_alike_float (field (k := "confidence") ?_ ?_),
    eq_of_alike_bool (field (k := "requires_execution") ?_ ?_),
    eq_of_alike_text (field (k := "nonce") ?_ ?_), field (k := "metadata") ?_ ?_⟩
  all_goals simp

end WorkflowEvent

/-! ## Tokens -/

namespace CapabilityToken

/-- The same fields but for the signature, up to the order of keys. -/
structure SameSigned (t u : CapabilityToken) : Prop where
  tokenId : t.tokenId = u.tokenId
  agentId : t.agentId = u.agentId
  workflowId : t.workflowId = u.workflowId
  authorityClass : t.authorityClass = u.authorityClass
  maxConsequenceRank : t.maxConsequenceRank = u.maxConsequenceRank
  conditions : t.conditions.toVal.Alike u.conditions.toVal
  issuedAt : t.issuedAt = u.issuedAt
  expiresAt : t.expiresAt = u.expiresAt
  nonce : t.nonce = u.nonce
  singleUse : t.singleUse = u.singleUse
  issuer : t.issuer = u.issuer
  eventId : t.eventId = u.eventId

theorem SameSigned.symm {t u : CapabilityToken} (h : t.SameSigned u) : u.SameSigned t :=
  ⟨h.tokenId.symm, h.agentId.symm, h.workflowId.symm, h.authorityClass.symm,
    h.maxConsequenceRank.symm, h.conditions.symm, h.issuedAt.symm, h.expiresAt.symm,
    h.nonce.symm, h.singleUse.symm, h.issuer.symm, h.eventId.symm⟩

/-- The payload fixes every signed field. -/
theorem sameSigned_of_payload {t u : CapabilityToken} {b : Bytes}
    (hjson : jsonValue t.conditions.toVal = true) (hjson' : jsonValue u.conditions.toVal = true)
    (hb : t.signingPayload = .ok b) (hb' : u.signingPayload = .ok b) : t.SameSigned u := by
  have hvalue {t : CapabilityToken} (h : jsonValue t.conditions.toVal = true) :
      jsonValue (.dict t.signingEntries) = true := by
    rw [jsonValue_of_fieldNames rfl]
    simp only [signingEntries, List.forall_mem_cons]
    simp [h]
  have halike := alike_of_canonicalBytes (hvalue hjson) (hvalue hjson') hb hb'
  have field {k : PyKey} {v v' : PyVal} := @PyVal.Alike.field _ _ k v v' halike
  refine ⟨eq_of_alike_text (field (k := "token_id") ?_ ?_),
    eq_of_alike_text (field (k := "agent_id") ?_ ?_),
    eq_of_alike_text (field (k := "workflow_id") ?_ ?_),
    AuthorityClass.value_injective (eq_of_alike_text (field (k := "authority_class") ?_ ?_)),
    eq_of_alike_int (field (k := "max_consequence_rank") ?_ ?_),
    field (k := "conditions") ?_ ?_, eq_of_alike_text (field (k := "issued_at") ?_ ?_),
    eq_of_alike_text (field (k := "expires_at") ?_ ?_),
    eq_of_alike_text (field (k := "nonce") ?_ ?_),
    eq_of_alike_bool (field (k := "single_use") ?_ ?_),
    eq_of_alike_text (field (k := "issuer") ?_ ?_),
    eq_of_alike_optText (field (k := "event_id") ?_ ?_)⟩
  all_goals simp [signingEntries]

end CapabilityToken

end EarnedAutonomy
