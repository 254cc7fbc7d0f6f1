import EarnedAutonomy.Storage.Rows
import EarnedAutonomy.Core.StoredEvents

/-!
# Who signed the audit copy

A proposal is recorded with its event.  Between the check of the signature and
the record the agent's workflows are put into the metadata, which are signed.

* A copy with the signature of a signed event is signed if both have the same
  signed bytes (`SameText.signedBy`), and only then if the signature is for one of
  the two texts (`sameText_of_signedBy`).
* `sameText_withApproved_iff` and `sameText_column_iff` say when that is so, of
  the event in the record and of the one read back from a JSON column.
* `recorded_event_is_attributable_iff` is the result, for the ledger in memory
  and the one in the database (`KeepsPayloads`).
  `injected_workflows_break_the_signature` is a proposal that is not attributable.
-/

namespace EarnedAutonomy

open Atomic Service Prog Calendar Store LawfulStore ControlPlane OrderedDict

/-! ## How a ledger keeps a payload -/

/-- A ledger keeps the payload of a record as it is, or in a JSON column. -/
class KeepsPayloads (L : Type) [AuditLog L] where
  inColumn : Bool
  payload_append : ∀ {P : Primitives} (keys : KeyPair P) (e : LedgerEntry) (l : L) r l' r',
    AuditLog.append keys e l = (.ok r, l') → AuditLog.records l' = AuditLog.records l ++ [r'] →
      r'.payload = if inColumn then jsonColumn e.payload else e.payload

instance : KeepsPayloads AuditLedger where
  inColumn := false
  payload_append keys e l r l' r' h hrecords := by
    simp only [AuditLog.append, AuditLedger.append] at h
    split at h
    · rename_i record hseal
      cases h
      have hr : r = r' := by simpa [AuditLog.records] using hrecords
      rw [← hr]
      exact (sealRecord_isFor hseal).2.2
    · cases h

instance : KeepsPayloads SqlAuditLedger where
  inColumn := true
  payload_append keys e l r l' r' h hrecords := by
    simp only [AuditLog.append, SqlAuditLedger.append] at h
    split at h
    · rename_i record hseal
      cases h
      have hr : { r with payload := jsonColumn r.payload } = r' := by
        simpa [AuditLog.records, SqlAuditLedger.records] using hrecords
      rw [← hr]
      exact congrArg jsonColumn (sealRecord_isFor hseal).2.2
    · cases h

/-! ## The event of a record -/

/-- The event in the payload of a proposal, decoded. -/
def eventOf : PyVal → Option WorkflowEvent
  | .dict d => (PyVal.lookup d "event").bind eventFromData
  | _ => none

theorem eventOf_ledgerDict (p : Packet) : eventOf p.ledgerDict = some p.event := by
  unfold Packet.ledgerDict eventOf
  simp [PyVal.lookup, eventFromData_toDict]

theorem eventOf_column (p : Packet) :
    eventOf (jsonColumn p.ledgerDict) = some (columnEvent p.event) := by
  unfold Packet.ledgerDict eventOf
  rw [jsonColumn_textKeys ["event", "agent", "current_autonomy_level", "current_autonomy_label",
    "autonomy_ceiling", "policy_decision", "classifier_reasons", "matching_delegation_rule",
    "approval_packet"] rfl (by decide)]
  simp [PyVal.lookup, eventFromData_column]

/-! ## Signed copies -/

/-- Under the key, the signature is for one of these messages at most. -/
def Primitives.Binds (P : Primitives) (key signature : String) (messages : Set Bytes) : Prop :=
  ∀ m ∈ messages, ∀ m' ∈ messages, P.verify key m signature = true →
    P.verify key m' signature = true → m = m'

section

variable {P : Primitives} {agent : AgentIdentity} {e e' : WorkflowEvent}

theorem signedBy_iff : signedBy (P := P) agent e = .ok true ↔
    ∃ key signature m, agent.publicKeyHex = some key ∧ key ≠ "" ∧ e.signature = some signature ∧
      canonicalBytes e.signingDict = .ok m ∧ P.verify key m signature = true := by
  unfold signedBy
  cases agent.publicKeyHex with
  | none => simp
  | some key =>
    cases e.signature with
    | none => simp
    | some signature =>
      by_cases hkey : key = ""
      · simp [hkey]
      · simp only [hkey, if_false]
        change (canonicalBytes e.signingDict >>= fun m => .ok (P.verify key m signature)) = _ ↔ _
        rw [bind_eq_ok_iff]
        simp [hkey]

/-- Two events with the same signed bytes. -/
def SameText (e e' : WorkflowEvent) : Prop :=
  ∃ m, canonicalBytes e'.signingDict = .ok m ∧ canonicalBytes e.signingDict = .ok m

/-- The signature of the event is not for two different texts of the event and the copy. -/
def BindsCopy (P : Primitives) (agent : AgentIdentity) (e e' : WorkflowEvent) : Prop :=
  ∀ key ∈ agent.publicKeyHex, ∀ signature ∈ e.signature, P.Binds key signature
    {m | canonicalBytes e.signingDict = .ok m ∨ canonicalBytes e'.signingDict = .ok m}

/-- A copy of a signed event with the same signed bytes is signed. -/
theorem SameText.signedBy (h : SameText e e') (hsigned : signedBy (P := P) agent e = .ok true)
    (hsame : e'.signature = e.signature) : signedBy (P := P) agent e' = .ok true := by
  obtain ⟨m, hm', hm⟩ := h
  obtain ⟨key, signature, m', hkey, hne, hsignature, hok, hverify⟩ := signedBy_iff.mp hsigned
  rw [hm] at hok
  cases hok
  exact signedBy_iff.mpr ⟨key, signature, m, hkey, hne, hsame.trans hsignature, hm', hverify⟩

/-- A copy that is signed has the same signed bytes. -/
theorem sameText_of_signedBy (hsigned : signedBy (P := P) agent e = .ok true)
    (hsame : e'.signature = e.signature) (hbinds : BindsCopy P agent e e')
    (hcopy : signedBy (P := P) agent e' = .ok true) : SameText e e' := by
  obtain ⟨key, signature, m, hkey, _, hsignature, hm, hverify⟩ := signedBy_iff.mp hsigned
  obtain ⟨key', signature', m', hkey', _, hsignature', hm', hverify'⟩ := signedBy_iff.mp hcopy
  rw [hkey] at hkey'
  rw [hsame, hsignature] at hsignature'
  cases hkey'
  cases hsignature'
  obtain rfl : m = m' :=
    hbinds key hkey signature hsignature m (Or.inl hm) m' (Or.inr hm') hverify hverify'
  exact ⟨m, hm', hm⟩

/-! ## The injected workflows -/

/-- The agent has put the workflows into the metadata itself. -/
def NamesWorkflows (e : WorkflowEvent) : Prop :=
  (Dict.get? e.metadata "_approved_workflows").isSome = true

theorem withApprovedWorkflows_eq (h : NamesWorkflows e) : withApprovedWorkflows e agent = e := by
  have hsome : (Dict.get? e.metadata "_approved_workflows").isSome = true := h
  unfold withApprovedWorkflows Dict.setdefault
  rw [if_pos hsome]

theorem metadata_withApprovedWorkflows (h : ¬ NamesWorkflows e) :
    (withApprovedWorkflows e agent).metadata =
      e.metadata ++ [(PyStr.utf8 "_approved_workflows", textsToVal agent.approvedWorkflows)] := by
  have hnone : Dict.get? e.metadata "_approved_workflows" = none := by
    simpa [NamesWorkflows] using h
  unfold withApprovedWorkflows Dict.setdefault
  rw [if_neg (by simp [hnone]), Dict.set_eq_append (Dict.get?_eq_none_iff.mp hnone)]

/-- Dicts with one canonical text have as many entries. -/
theorem length_eq_of_canon {d d' : List (PyKey × PyVal)}
    (h : canon (.dict d) = canon (.dict d')) : d.length = d'.length := by
  simp only [canon, CanonicalJson.Json.obj.injEq, canonEntries_eq_map] at h
  have hlength := congrArg List.length h
  simpa [List.length_insertionSort] using hlength

/-- Events with one signed text have as many metadata. -/
theorem length_metadata_of_canon (h : canon e'.signingDict = canon e.signingDict) :
    e'.metadata.length = e.metadata.length := by
  have hmetadata : canon e'.metadata.toVal = canon e.metadata.toVal := by
    refine canon_eq_of_canon_dict_eq (k := "metadata") h ?_ ?_ ?_
    · change List.Nodup ["agent_id", "human_owner_id", "workflow_id", "workflow_stage",
        "event_type", "intent", "authority_requested", "proposed_next_state", "expected_effect",
        "evidence", "confidence", "requires_execution", "nonce", "metadata"]
      decide
    · simp
    · simp
  have hlength := length_eq_of_canon hmetadata
  simpa using hlength

/-- A column keeps the metadata that can be stored. -/
theorem columnMapping_eq {m : Mapping} (h : m.toVal.Storable) :
    columnMapping m = m.map fun e => (e.1, jsonColumn e.2) := by
  obtain ⟨hkeys, _⟩ := storable_dict_iff.mp h
  have hcolumn : (columnMapping m).toVal = jsonColumn m.toVal := (jsonColumn_toVal m).symm
  rw [Mapping.toVal, Mapping.toVal, jsonColumn, hkeys.columnEntries_eq, List.map_map] at hcolumn
  have hentries := PyVal.dict.inj hcolumn
  refine List.map_injective_iff.mpr ?_ (hentries.trans ?_)
  · rintro ⟨k, v⟩ ⟨k', v'⟩ hkv
    simpa using hkv
  · rw [List.map_map]
    rfl

/-- A signed event has signed bytes. -/
theorem encodable_of_signedBy (hsigned : signedBy (P := P) agent e = .ok true) :
    e.signingDict.Encodable := by
  obtain ⟨_, _, m, _, _, _, hm, _⟩ := signedBy_iff.mp hsigned
  exact encodable_iff.mpr ⟨m, hm⟩

/-- The event with the agent's workflows has the same signed bytes exactly if the agent has
named them itself. -/
theorem sameText_withApproved_iff (hsigned : signedBy (P := P) agent e = .ok true) :
    SameText e (withApprovedWorkflows e agent) ↔ NamesWorkflows e := by
  constructor
  · rintro ⟨m, hm', hm⟩
    by_contra hnot
    have hlength := length_metadata_of_canon (canon_eq_of_canonicalBytes hm' hm)
    rw [metadata_withApprovedWorkflows hnot, List.length_append, List.length_singleton] at hlength
    omega
  · intro h
    obtain ⟨m, hm⟩ := encodable_iff.mp (encodable_of_signedBy hsigned)
    rw [withApprovedWorkflows_eq h]
    exact ⟨m, hm, hm⟩

/-- After a column it has so exactly if, besides, the column keeps the signed text. -/
theorem sameText_column_iff (hsigned : signedBy (P := P) agent e = .ok true)
    (hdict : wellFormed e.signingDict = true) :
    SameText e (columnEvent (withApprovedWorkflows e agent)) ↔
      NamesWorkflows e ∧ textOrdered e.signingDict = true := by
  have hstorable : e.signingDict.Storable := ⟨encodable_of_signedBy hsigned, hdict⟩
  have hmetadata : e.metadata.toVal.Storable :=
    (storable_dict_iff.mp hstorable).2 ("metadata", e.metadata.toVal) (by simp)
  constructor
  · rintro ⟨m, hm', hm⟩
    have hcanon := canon_eq_of_canonicalBytes hm' hm
    have hnames : NamesWorkflows e := by
      by_contra hnot
      -- a column keeps the metadata, and one more
      have hfresh : PyStr.utf8 "_approved_workflows" ∉ (columnMapping e.metadata).map Prod.fst := by
        rw [columnMapping_eq hmetadata, List.map_map]
        refine Dict.get?_eq_none_iff.mp ?_
        simpa [NamesWorkflows] using hnot
      have hlength := length_metadata_of_canon hcanon
      change (columnMapping (withApprovedWorkflows e agent).metadata).length = _ at hlength
      rw [metadata_withApprovedWorkflows hnot, columnMapping, List.foldl_append] at hlength
      change (Dict.set (columnMapping e.metadata) (.utf8 "_approved_workflows") _).length = _
        at hlength
      rw [Dict.set_eq_append hfresh, columnMapping_eq hmetadata] at hlength
      simp at hlength
    rw [withApprovedWorkflows_eq hnames, ← jsonColumn_signingDict,
      canon_jsonColumn_iff hstorable] at hcanon
    exact ⟨hnames, hcanon⟩
  · rintro ⟨hnames, hordered⟩
    obtain ⟨m, hm⟩ := encodable_iff.mp (storable_jsonColumn hstorable).toEncodable
    refine ⟨m, ?_, ?_⟩
    · rw [withApprovedWorkflows_eq hnames, ← jsonColumn_signingDict]
      exact hm
    · obtain ⟨_, _, hbytes⟩ := canonicalBytes_eq_ok_iff.mp hm
      refine canonicalBytes_eq_ok_iff.mpr ⟨hstorable.serializable, hstorable.isUtf8, ?_⟩
      rw [hbytes, (canon_jsonColumn_iff hstorable).mpr hordered]

end

/-! ## Records of accepted proposals -/

section

variable {P : Primitives} {F : Type} {cp : ControlPlane P F} {o : Oracle}
variable {S C L : Type} [Store S] [CapabilityStateStore C] [AuditLog L]

/-- The event of the record, decoded, is signed under the key that is registered for its
agent. -/
def Attributable (P : Primitives) (s : S) (r : AuditRecord) : Prop :=
  ∃ e agent, eventOf r.payload = some e ∧ getAgent e.agentId s = some agent ∧
    signedBy (P := P) agent e = .ok true

variable [LawfulAuditLog L] [KeepsPayloads L] [Arithmetic F]

/-- An accepted proposal appends its packet to the ledger. -/
theorem Accepted.appends {y : CpTurn F S C L} {e : WorkflowEvent} {p : Packet}
    (hacc : Accepted y e p) (hy : y = (cp.system o).serve y.before y.request)
    (hstrict : cp.config.strictMode = true) :
    ∃ r, AuditLog.records y.after.ledger = AuditLog.records y.before.ledger ++ [r] ∧
      r.eventType = "workflow.event.proposed" ∧ r.actorId = some e.agentId ∧
      r.payload = if KeepsPayloads.inColumn L then jsonColumn p.ledgerDict else p.ledgerDict := by
  have hfollows := (cp.system o).follows_serve y.before y.request
  have hanswers := (cp.system o).answers_serve y.before y.request
  rw [← hy] at hfollows hanswers
  have hp' := hacc.follows hfollows
  obtain ⟨before, ⟨replica, cmd⟩, calls, result, after⟩ := y
  obtain ⟨rfl, rfl⟩ := hacc
  obtain ⟨front, minted, r, hauth, hassessed, hgranted, rfl⟩ :=
    ControlPlane.follows_proposeEvent_done hp'
  obtain ⟨_, _, hfront⟩ := ControlPlane.follows_authenticate_done hauth
  have hfront : front = [⟨.getAgent e.agentId, some p.agent⟩] := by
    simpa [hstrict] using hfront
  subst hfront
  have hanswers : Answers (worldHandler o cp.ledgerKeys replica) before
      ([⟨.getAgent e.agentId, some p.agent⟩] ++ (ControlPlane.readingCalls e p ++
        (capCalls minted ++ ControlPlane.recordingCalls p r))) after := hanswers
  simp only [answers_append, ControlPlane.readingCalls, ControlPlane.recordingCalls, Answers,
    worldHandler] at hanswers
  obtain ⟨s, ⟨_, rfl⟩, _, ⟨_, _, _, _, rfl⟩, t, hmint, _, happend, rfl⟩ := hanswers
  obtain ⟨_, hledger⟩ := answers_capCalls hmint
  have hid : p.event.agentId = e.agentId := by
    rw [hassessed.event]
    rfl
  obtain ⟨r', hrecords, htype, hactor, _⟩ :=
    LawfulAuditLog.append_ok _ _ _ _ _ (Prod.ext happend rfl)
  have hpayload := KeepsPayloads.payload_append _ _ _ _ _ _ (Prod.ext happend rfl) hrecords
  refine ⟨r', ?_, htype, ?_, hpayload⟩
  · change AuditLog.records (AuditLog.append _ _ t.ledger).2 = _
    rw [← hledger]
    exact hrecords
  · rw [hactor, hid]

omit [CapabilityStateStore C] [LawfulAuditLog L] [Arithmetic F] in
/-- The event that is decoded from the record of an accepted proposal. -/
theorem Established.decoded [LawfulStore S] {y : CpTurn F S C L} {e : WorkflowEvent} {p : Packet}
    (hest : Established cp y e p) (hdict : wellFormed e.signingDict = true) {r : AuditRecord}
    (hpayload : r.payload =
      if KeepsPayloads.inColumn L then jsonColumn p.ledgerDict else p.ledgerDict) :
    ∃ e', eventOf r.payload = some e' ∧ e'.agentId = e.agentId ∧ e'.signature = e.signature ∧
      (SameText e e' ↔ NamesWorkflows e ∧
        (KeepsPayloads.inColumn L = true → textOrdered e.signingDict = true)) := by
  have hevent : p.event = withApprovedWorkflows e p.agent := hest.assessed.event
  cases hcolumn : KeepsPayloads.inColumn L with
  | false =>
    rw [hcolumn, if_neg (by simp)] at hpayload
    refine ⟨withApprovedWorkflows e p.agent, ?_, rfl, rfl, ?_⟩
    · rw [hpayload, eventOf_ledgerDict, hevent]
    · rw [sameText_withApproved_iff hest.signed]
      simp
  | true =>
    rw [hcolumn, if_pos rfl] at hpayload
    refine ⟨columnEvent (withApprovedWorkflows e p.agent), ?_, rfl, rfl, ?_⟩
    · rw [hpayload, eventOf_column, hevent]
    · rw [sameText_column_iff hest.signed hdict]
      simp

omit [CapabilityStateStore C] [LawfulAuditLog L] [Arithmetic F] in
/-- When the record of an accepted proposal is attributable. -/
theorem Established.attributable [LawfulStore S] {y : CpTurn F S C L} {e : WorkflowEvent}
    {p : Packet} (hest : Established cp y e p) (hdict : wellFormed e.signingDict = true)
    {r : AuditRecord} (hpayload : r.payload =
      if KeepsPayloads.inColumn L then jsonColumn p.ledgerDict else p.ledgerDict) :
    (NamesWorkflows e ∧ (KeepsPayloads.inColumn L = true → textOrdered e.signingDict = true) →
      Attributable P y.before.store r) ∧
    ((∀ e' ∈ eventOf r.payload, BindsCopy P p.agent e e') → Attributable P y.before.store r →
      NamesWorkflows e ∧
        (KeepsPayloads.inColumn L = true → textOrdered e.signingDict = true)) := by
  obtain ⟨e', he', hid, hsame, htext⟩ := hest.decoded (L := L) hdict hpayload
  rw [← htext]
  constructor
  · intro h
    exact ⟨e', p.agent, he', by rw [hid, hest.finds.known], h.signedBy hest.signed hsame⟩
  · -- the decoded event is one of the proposer
    rintro hbinds ⟨e'', agent, he'', hagent, hverified⟩
    rw [he'] at he''
    cases he''
    rw [hid, hest.finds.known] at hagent
    cases hagent
    exact sameText_of_signedBy hest.signed hsame (hbinds e' he') hverified

/-- The record of an accepted proposal stays in the ledger.  Its event is attributable if
the agent has named its workflows in the metadata it signed and, where payloads are kept
in a column, the keys of what it signed have the order of their texts; and, unless its
signature is for two texts, only then. -/
theorem recorded_event_is_attributable_iff [LawfulStore S] [LawfulCapabilityStore C]
    {turns : List (CpTurn F S C L)} {w w' : World S C L} (h : (cp.system o).Runs w turns w')
    (hstrict : cp.config.strictMode = true) {i : Nat} {y : CpTurn F S C L} {e : WorkflowEvent}
    {p : Packet} (hi : turns[i]? = some y) (hacc : Accepted y e p)
    (hdict : wellFormed e.signingDict = true) :
    ∃ r, AuditLog.records y.after.ledger = AuditLog.records y.before.ledger ++ [r] ∧
      r ∈ AuditLog.records w'.ledger ∧
      r.eventType = "workflow.event.proposed" ∧ r.actorId = some e.agentId ∧
      (NamesWorkflows e ∧ (KeepsPayloads.inColumn L = true → textOrdered e.signingDict = true) →
        Attributable P y.before.store r) ∧
      ((∀ e' ∈ eventOf r.payload, BindsCopy P p.agent e e') → Attributable P y.before.store r →
        NamesWorkflows e ∧
          (KeepsPayloads.inColumn L = true → textOrdered e.signingDict = true)) := by
  obtain ⟨_, hserve, hlater⟩ := h.getElem? hi
  obtain ⟨r, hrecords, htype, hactor, hpayload⟩ := hacc.appends hserve hstrict
  have hmem : r ∈ AuditLog.records y.after.ledger := by
    rw [hrecords]
    exact List.mem_append_right _ List.mem_cons_self
  exact ⟨r, hrecords, records_of_runs hlater hmem, htype, hactor,
    (hacc.established h hi hstrict).attributable hdict hpayload⟩

end

/-! ## A signed proposal -/

theorem tagged_binds (key signature : String) (messages : Set Bytes) :
    Primitives.tagged.Binds key signature messages := by
  intro m _ m' _ hm hm'
  have hm : signature = key ++ ":" ++ m := of_decide_eq_true hm
  have hm' : signature = key ++ ":" ++ m' := of_decide_eq_true hm'
  rw [hm] at hm'
  have hlist := congrArg String.toList hm'
  simpa [String.toList_append, String.toList_inj] using hlist

/-- The control plane with signatures that tell messages apart. -/
def taggedPlane : ControlPlane Primitives.tagged Dyadic where
  classify := demoClassify
  capabilityService := { keys := .ofPrivate _ "issuer" }
  ledgerKeys := .ofPrivate _ "issuer"

abbrev taggedSystem : Service PyError (Nat × Command) Res (Answer Dyadic) SqlWorld :=
  taggedPlane.system (demoOracle fun _ => demoHour 12)

/-- The demo event with these metadata. -/
def unsignedEvent (metadata : Mapping) : WorkflowEvent :=
  { demoEvent true with metadata := metadata, signature := none }

/-- The event with the signature of the agent. -/
def signedEvent (metadata : Mapping) : WorkflowEvent :=
  { unsignedEvent metadata with
    signature := (unsignedEvent metadata).signingPayload.toOption.map
      (Primitives.tagged.sign "key") }

/-- Register and propose. -/
def signedDemo (metadata : Mapping) : List (Nat × Command) :=
  [(0, .registerAgent demoAgent), (0, .proposeEvent (signedEvent metadata))]

/-- The state when the event is proposed. -/
def signedWorld : SqlWorld :=
  taggedSystem.final (World.initial _ _ _) [(0, .registerAgent demoAgent)]

/-- The signed event is accepted, if the policy holds it back and it can be recorded. -/
theorem signedEvent_accepted {metadata : Mapping} (hmetadata : metadata.toVal.Encodable)
    (hheld : ((taggedPlane.assessment signedWorld.store (signedEvent metadata)
      demoAgent).toOption.any fun p => !p.decision.status.permissive &&
        (serializable p.ledgerDict).isOk && isUtf8 p.ledgerDict) = true) :
    ∃ y p, (taggedSystem.history (World.initial _ _ _) (signedDemo metadata))[1]? = some y ∧
      Accepted y (signedEvent metadata) p := by
  have hrecordable : (signedEvent metadata).Recordable :=
    ⟨rfl, rfl, rfl, rfl, by simp [signedEvent, unsignedEvent, demoEvent], rfl, hmetadata⟩
  obtain ⟨m, hm⟩ := encodable_iff.mp (WorkflowEvent.encodable_signingDict.mpr hrecordable)
  have hsignature : (signedEvent metadata).signature = some (Primitives.tagged.sign "key" m) := by
    show ((canonicalBytes (signedEvent metadata).signingDict).toOption.map _) = _
    rw [hm]
    rfl
  have hsigned : signedBy (P := Primitives.tagged) demoAgent (signedEvent metadata) = .ok true :=
    signedBy_iff.mpr ⟨"key", _, m, rfl, by decide, hsignature, hm,
      Primitives.tagged.verify_sign "key" m⟩
  have hpresent : present (signedEvent metadata).signature = true := by
    rw [hsignature]
    have hne : Primitives.tagged.sign "key" m ≠ "" := by
      intro h
      have hlist := congrArg String.toList h
      simp [Primitives.tagged] at hlist
    exact decide_eq_true hne
  have hknown : getAgent (signedEvent metadata).agentId signedWorld.store = some demoAgent := rfl
  obtain ⟨p, hp⟩ := accepted_of_completes 0 hknown ⟨rfl, fun _ => ⟨hpresent, hsigned⟩⟩
    rfl (completes_of_heldBack (o := demoOracle fun _ => demoHour 12) hheld)
  exact ⟨_, p, rfl, hp⟩

/-- The workflows are not among the metadata that the agent signs, and the event in the
record is not signed. -/
theorem injected_workflows_break_the_signature :
    let turns := taggedSystem.history (World.initial _ _ _) (signedDemo [])
    taggedSystem.Runs (World.initial _ _ _) turns
        (taggedSystem.final (World.initial _ _ _) (signedDemo [])) ∧
      taggedPlane.config.strictMode = true ∧
      ∃ y p r, turns[1]? = some y ∧ Accepted y (signedEvent []) p ∧
        AuditLog.records y.after.ledger = AuditLog.records y.before.ledger ++ [r] ∧
        r.eventType = "workflow.event.proposed" ∧
        ¬ Attributable Primitives.tagged y.before.store r := by
  intro turns
  have hempty : (Mapping.toVal []).Encodable := by simp
  have hdict : wellFormed (signedEvent []).signingDict = true := by decide +kernel
  obtain ⟨y, p, hy, hacc⟩ := signedEvent_accepted hempty (by decide +kernel)
  have hruns := taggedSystem.runs_history (World.initial SqlStore SqlCapabilityStore SqlAuditLedger)
    (signedDemo [])
  obtain ⟨r, hrecords, htype, _, hpayload⟩ := hacc.appends (hruns.getElem? hy).2.1 rfl
  have honly := ((hacc.established hruns hy rfl).attributable hdict hpayload).2
    fun _ _ _ _ _ _ => tagged_binds _ _ _
  refine ⟨hruns, rfl, y, p, r, hy, hacc, hrecords, htype, fun h => ?_⟩
  cases (honly h).1

/-- Where the agent has named its workflows, the event in the record is signed, and where
it has not, it is not. -/
theorem named_workflows_keep_the_signature :
    let named : Mapping := [("_approved_workflows", textsToVal ["claims"])]
    let turns (metadata : Mapping) := taggedSystem.history (World.initial _ _ _)
      (signedDemo metadata)
    let w (metadata : Mapping) : SqlWorld := taggedSystem.final (World.initial _ _ _)
      (signedDemo metadata)
    (∃ y p r, (turns named)[1]? = some y ∧ Accepted y (signedEvent named) p ∧
      r ∈ AuditLog.records (w named).ledger ∧
        Attributable Primitives.tagged y.before.store r) ∧
    ∃ y p r, (turns [])[1]? = some y ∧ Accepted y (signedEvent []) p ∧
      r ∈ AuditLog.records (w []).ledger ∧ ¬ Attributable Primitives.tagged y.before.store r := by
  intro named turns w
  have hruns (metadata : Mapping) : taggedSystem.Runs (World.initial _ _ _) (turns metadata)
      (w metadata) := runs_history _ _
  constructor
  · have hnamed : named.toVal.Encodable := by
      rw [encodable_mapping, List.forall_mem_singleton]
      exact ⟨rfl, encodable_textsToVal _⟩
    have hjson : jsonValue (signedEvent named).signingDict = true := by decide +kernel
    obtain ⟨hdict, hordered⟩ := textOrdered_of_jsonValue hjson
    obtain ⟨y, p, hy, hacc⟩ := signedEvent_accepted hnamed (by decide +kernel)
    obtain ⟨r, _, hmem, _, _, hsigned, _⟩ :=
      recorded_event_is_attributable_iff (hruns named) rfl hy hacc hdict
    exact ⟨y, p, r, hy, hacc, hmem, hsigned ⟨rfl, fun _ => hordered⟩⟩
  · have hempty : (Mapping.toVal []).Encodable := by simp
    have hdict : wellFormed (signedEvent []).signingDict = true := by decide +kernel
    obtain ⟨y, p, hy, hacc⟩ := signedEvent_accepted hempty (by decide +kernel)
    obtain ⟨r, _, hmem, _, _, _, honly⟩ :=
      recorded_event_is_attributable_iff (hruns []) rfl hy hacc hdict
    refine ⟨y, p, r, hy, hacc, hmem, fun h => ?_⟩
    cases (honly (fun _ _ _ _ _ _ => tagged_binds _ _ _) h).1

end EarnedAutonomy
