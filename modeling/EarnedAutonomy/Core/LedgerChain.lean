import EarnedAutonomy.Core.Ledger
import EarnedAutonomy.Lib.HashChain

/-!
# The chain of the audit ledger
-/

namespace EarnedAutonomy

open HashChain

/-! ## What a record is hashed over -/

namespace AuditRecord

/-- The dictionary `hash_record` hashes. -/
def hashedDict (r : AuditRecord) : PyVal :=
  { r with recordHash := none, signature := none }.toDict

/-- The entries of `hashedDict`. -/
def hashedEntries (r : AuditRecord) : List (PyKey × PyVal) := [
  ("event_type", .text r.eventType),
  ("payload", r.payload),
  ("actor_id", .optText r.actorId),
  ("record_id", .text r.recordId),
  ("timestamp", .text r.timestamp),
  ("sequence", .int r.sequence),
  ("previous_hash", .optText r.previousHash),
  ("record_hash", .none),
  ("signature", .none)]

theorem hashedDict_eq (r : AuditRecord) : r.hashedDict = .dict r.hashedEntries := rfl

private theorem nodup_hashedKeys (r : AuditRecord) :
    (r.hashedEntries.map fun e => (keyText e.1).toText).Nodup := by
  simp only [hashedEntries, List.map_cons, List.map_nil, keyText, PyStr.toText]
  decide

/-- The two records have the same canonical encoding in every field but the hash
and the signature. -/
structure SameContent (r s : AuditRecord) : Prop where
  eventType : r.eventType = s.eventType
  actorId : r.actorId = s.actorId
  recordId : r.recordId = s.recordId
  timestamp : r.timestamp = s.timestamp
  sequence : r.sequence = s.sequence
  previousHash : r.previousHash = s.previousHash
  payload : canonicalBytes r.payload = canonicalBytes s.payload

/-- The same in every field but the signature. -/
structure SameButSignature (r s : AuditRecord) : Prop extends SameContent r s where
  recordHash : r.recordHash = s.recordHash

private theorem serializable_optText (s : Option String) :
    serializable (.optText s) = .ok () := by
  cases s <;> rfl

private theorem isUtf8_optText (s : Option String) : isUtf8 (.optText s) = true := by
  cases s <;> rfl

/-- A record can be encoded if and only if its payload can. -/
theorem encodable_hashedDict {r : AuditRecord} :
    r.hashedDict.Encodable ↔ r.payload.Encodable := by
  have hkeys : keysSerializable (r.hashedEntries.map Prod.fst) = .ok () := by
    simp only [hashedEntries, List.map_cons, List.map_nil]
    decide
  have hserializable : serializable r.hashedDict = serializable r.payload := by
    rw [hashedDict_eq, serializable, hkeys]
    simp only [hashedEntries, serializableEntries, serializable_optText]
    simp only [PyVal.text, serializable, bind, Except.bind]
    cases serializable r.payload <;> rfl
  have hutf : isUtf8 r.hashedDict = isUtf8 r.payload := by
    rw [hashedDict_eq]
    simp only [hashedEntries, isUtf8, isUtf8Entries, isUtf8_optText]
    simp [PyVal.text, isUtf8, keyText, PyStr.isUtf8]
  constructor
  · rintro ⟨hs, hu⟩
    exact ⟨hserializable ▸ hs, hutf ▸ hu⟩
  · rintro ⟨hs, hu⟩
    exact ⟨hserializable.trans hs, hutf.trans hu⟩

/-- The hashed bytes fix every field of the record. -/
theorem sameContent_of_canonicalBytes {r s : AuditRecord} {b : Bytes}
    (hr : canonicalBytes r.hashedDict = .ok b) (hs : canonicalBytes s.hashedDict = .ok b) :
    r.SameContent s := by
  have hcanon := canon_eq_of_canonicalBytes hr hs
  have field {k : PyKey} {v v' : PyVal} (hv : (k, v) ∈ r.hashedEntries)
      (hv' : (k, v') ∈ s.hashedEntries) : canon v = canon v' :=
    canon_eq_of_canon_dict_eq hcanon (nodup_hashedKeys s) hv hv'
  have hpayload : canon r.payload = canon s.payload :=
    field (k := "payload") (by simp [hashedEntries]) (by simp [hashedEntries])
  have hrp := encodable_hashedDict.mp (encodable_iff.mpr ⟨b, hr⟩)
  have hsp := encodable_hashedDict.mp (encodable_iff.mpr ⟨b, hs⟩)
  refine ⟨eq_of_canon_text (field (k := "event_type") ?_ ?_),
    eq_of_canon_optText (field (k := "actor_id") ?_ ?_),
    eq_of_canon_text (field (k := "record_id") ?_ ?_),
    eq_of_canon_text (field (k := "timestamp") ?_ ?_),
    Int.ofNat_inj.mp (eq_of_canon_int (field (k := "sequence") ?_ ?_)),
    eq_of_canon_optText (field (k := "previous_hash") ?_ ?_),
    by rw [hrp.canonicalBytes_eq, hsp.canonicalBytes_eq, hpayload]⟩
  all_goals simp [hashedEntries]

end AuditRecord

/-! ## The chain -/

section

variable {P : Primitives}

theorem hashRecord_eq (r : AuditRecord) :
    hashRecord P r = (canonicalBytes r.hashedDict).map P.sha256 := by
  unfold hashRecord
  change (canonicalBytes r.hashedDict >>= fun b => pure (P.sha256 b)) = _
  cases canonicalBytes r.hashedDict <;> rfl

theorem hashRecord_eq_ok_iff {r : AuditRecord} {h : String} :
    hashRecord P r = .ok h ↔ ∃ b, canonicalBytes r.hashedDict = .ok b ∧ h = P.sha256 b := by
  rw [hashRecord_eq]
  cases canonicalBytes r.hashedDict with
  | ok b => simp [Except.map, eq_comm]
  | error e => simp [Except.map]

/-- The chain of audit records: hashed over their canonical bytes, and signed over
their hash. -/
def auditChain (keys : KeyPair P) : Scheme AuditRecord String Bytes where
  sequence := AuditRecord.sequence
  previous := AuditRecord.previousHash
  hash := AuditRecord.recordHash
  content r := (canonicalBytes r.hashedDict).toOption
  digest := P.sha256
  signed r := r.recordHash.any fun h => r.signature.any fun s => keys.verify h s
  covers r s k hr hs := by
    have bytes {r : AuditRecord} (h : (canonicalBytes r.hashedDict).toOption = some k) :
        canonicalBytes r.hashedDict = .ok k := by
      cases hb : canonicalBytes r.hashedDict with
      | ok b =>
        rw [hb] at h
        rw [Option.some.inj h]
      | error e =>
        rw [hb] at h
        cases h
    have hsame := AuditRecord.sameContent_of_canonicalBytes (bytes hr) (bytes hs)
    exact ⟨hsame.sequence, hsame.previousHash⟩

variable {keys : KeyPair P} {r : AuditRecord} {l : List AuditRecord}

theorem content_eq_some_iff {b : Bytes} :
    (auditChain keys).content r = some b ↔ canonicalBytes r.hashedDict = .ok b := by
  change (canonicalBytes r.hashedDict).toOption = some b ↔ _
  cases canonicalBytes r.hashedDict <;> simp [Except.toOption]

/-- A record is sealed if it carries its hash and a signature of it. -/
theorem sealed_iff : (auditChain keys).Sealed r ↔ ∃ h, hashRecord P r = .ok h ∧
    r.recordHash = some h ∧ r.signature.any (fun s => keys.verify h s) = true := by
  constructor
  · rintro ⟨⟨b, hb, hhash⟩, hsigned⟩
    have hhash : r.recordHash = some (P.sha256 b) := hhash
    have hsigned : (r.recordHash.any fun h => r.signature.any fun s => keys.verify h s) = true :=
      hsigned
    refine ⟨P.sha256 b, hashRecord_eq_ok_iff.mpr ⟨b, content_eq_some_iff.mp hb, rfl⟩, hhash, ?_⟩
    rwa [hhash] at hsigned
  · rintro ⟨h, hhash, hrecord, hsigned⟩
    obtain ⟨b, hb, rfl⟩ := hashRecord_eq_ok_iff.mp hhash
    refine ⟨⟨b, content_eq_some_iff.mpr hb, hrecord⟩, ?_⟩
    change (r.recordHash.any fun h => r.signature.any fun s => keys.verify h s) = true
    rw [hrecord]
    exact hsigned

/-- The loop accepts exactly the valid chains. -/
theorem verifyFrom_eq_true_iff {i : Nat} {previous : Option String} :
    verifyFrom keys i previous l = .ok true ↔ (auditChain keys).Valid i previous l := by
  induction l generalizing i previous with
  | nil => simp [verifyFrom, Scheme.Valid]
  | cons r rest ih =>
    rw [verifyFrom, Scheme.Valid, sealed_iff]
    by_cases hsequence : r.sequence = i
    · by_cases hprevious : r.previousHash = previous
      · simp only [hsequence, hprevious, ne_eq, not_true_eq_false, if_false]
        cases hhash : hashRecord P r with
        | error e => simp [bind, Except.bind]
        | ok h =>
          by_cases hrecord : r.recordHash = some h
          · cases hsigned : r.signature.any fun s => keys.verify h s with
            | false => simp [bind, Except.bind, pure, Except.pure, hrecord, hsigned]
            | true =>
              simpa [bind, Except.bind, hrecord, hsigned, auditChain, hsequence, hprevious] using ih
          · simp [bind, Except.bind, pure, Except.pure, hrecord]
      · simp [hprevious, auditChain]
    · simp [hsequence, auditChain]

theorem verifyRecords_eq_true_iff :
    verifyRecords keys l = .ok true ↔ (auditChain keys).Valid 0 none l := verifyFrom_eq_true_iff

/-! ## Appending -/

variable {e : LedgerEntry} {n : Nat} {previous : Option String}

/-- What a record of an entry is. -/
structure SealedFor (keys : KeyPair P) (e : LedgerEntry) (n : Nat) (previous : Option String)
    (r : AuditRecord) : Prop where
  payload : r.payload = e.payload
  sequence : r.sequence = n
  previousHash : r.previousHash = previous
  sealed : (auditChain keys).Sealed r
  eventType : r.eventType = e.eventType
  actorId : r.actorId = e.actorId
  recordId : r.recordId = e.recordId
  timestamp : r.timestamp = e.timestamp

theorem sealRecord_ok (h : sealRecord keys e n previous = .ok r) :
    SealedFor keys e n previous r := by
  unfold sealRecord at h
  dsimp only at h
  cases hhash : hashRecord P ⟨e.eventType, e.payload, e.actorId, e.recordId, e.timestamp, n,
      previous, none, none⟩ with
  | error err =>
    rw [hhash] at h
    cases h
  | ok hash =>
    rw [hhash] at h
    cases h
    refine ⟨rfl, rfl, rfl, sealed_iff.mpr ⟨hash, hhash, rfl, ?_⟩, rfl, rfl, rfl, rfl⟩
    exact keys.verify_sign hash

/-- An entry gets a record exactly if its payload can be encoded. -/
theorem exists_sealRecord_iff :
    (∃ r, sealRecord keys e n previous = .ok r) ↔ e.payload.Encodable := by
  rw [← AuditRecord.encodable_hashedDict (r := ⟨e.eventType, e.payload, e.actorId, e.recordId,
    e.timestamp, n, previous, none, none⟩), encodable_iff]
  unfold sealRecord
  dsimp only
  rw [hashRecord_eq]
  cases canonicalBytes _ with
  | ok b => simp [Except.map, bind, Except.bind, pure, Except.pure]
  | error err => simp [Except.map, bind, Except.bind]

/-- An appended record extends a valid chain. -/
theorem SealedFor.valid_concat (h : SealedFor keys e l.length ((auditChain keys).lastHash none l) r)
    (hl : (auditChain keys).Valid 0 none l) : (auditChain keys).Valid 0 none (l ++ [r]) := by
  refine Scheme.valid_concat.mpr ⟨hl, ?_, h.previousHash, h.sealed⟩
  rw [Nat.zero_add]
  exact h.sequence

theorem lastHash_eq (l : List AuditRecord) :
    (auditChain keys).lastHash none l = l.getLast?.bind AuditRecord.recordHash := by
  unfold Scheme.lastHash
  cases l.getLast? <;> rfl

/-- The history of a ledger: what `append` has made of the payloads it accepted. -/
structure History (keys : KeyPair P) (l : List AuditRecord) : Prop where
  valid : (auditChain keys).Valid 0 none l
  storable : ∀ r ∈ l, r.payload.Storable

theorem history_nil : History keys [] := ⟨trivial, by simp⟩

theorem History.snoc (h : History keys l) (hpayload : wellFormed e.payload = true)
    (hseal : sealRecord keys e l.length ((auditChain keys).lastHash none l) = .ok r) :
    History keys (l ++ [r]) := by
  have hsealed := sealRecord_ok hseal
  refine ⟨hsealed.valid_concat h.valid, fun r' hr' => ?_⟩
  rcases List.mem_append.mp hr' with hr' | hr'
  · exact h.storable r' hr'
  · rw [List.mem_singleton.mp hr', hsealed.payload]
    exact ⟨exists_sealRecord_iff.mp ⟨r, hseal⟩, hpayload⟩

/-- On a valid table the next row is numbered and linked as on a list. -/
theorem SqlAuditLedger.append_eq {l : SqlAuditLedger} (h : (auditChain keys).Valid 0 none l.rows)
    (e : LedgerEntry) :
    l.append keys e =
      match sealRecord keys e l.rows.length ((auditChain keys).lastHash none l.rows) with
      | .ok record => (.ok record, ⟨l.rows ++ [record]⟩)
      | .error err => (.error err, l) := by
  rw [lastHash_eq]
  unfold SqlAuditLedger.append
  dsimp only
  cases hlast : l.rows.getLast? with
  | none => rw [List.getLast?_eq_none_iff.mp hlast]; rfl
  | some head =>
    have hhead := hlast
    rw [List.getLast?_eq_getElem?] at hhead
    have hsequence : head.sequence = 0 + (l.rows.length - 1) := (h.getElem? hhead).1
    have hlength := (List.getElem?_eq_some_iff.mp hhead).1
    have hnext : head.sequence + 1 = l.rows.length := by omega
    cases hseal : sealRecord keys e l.rows.length head.recordHash <;> simp [hnext, hseal]

/-- The rows of a table that was filled by `append` are a history. -/
theorem SqlAuditLedger.Reachable.history {l : SqlAuditLedger} (h : Reachable keys l) :
    History keys l.rows := by
  induction h with
  | new => exact history_nil
  | @append l h e hpayload ih =>
    rw [append_eq ih.valid]
    split
    · rename_i record hseal
      exact ih.snoc hpayload hseal
    · exact ih

/-! ### With a file -/

namespace FileLedger

/-- The record in the process is the appended one, or that after it was read from
the file. -/
def Kept (r s : AuditRecord) : Prop := r = s ∨ r = fileRecord s

theorem Kept.recordHash {r s : AuditRecord} (h : Kept r s) : r.recordHash = s.recordHash := by
  rcases h with rfl | rfl <;> rfl

/-- The records in the process and in the file are those that were appended. -/
structure Consistent (keys : KeyPair P) (l : FileLedger) : Prop where
  history : History keys l.appended
  lines : l.path = true → l.lines = l.appended.map fileRecord
  records : List.Forall₂ Kept l.ledger.records l.appended

variable {l : FileLedger}

/-- The head in the process has the hash of the last record that was appended. -/
theorem Consistent.lastHash (h : Consistent keys l) :
    l.ledger.records.getLast?.bind AuditRecord.recordHash =
      (auditChain keys).lastHash none l.appended := by
  have hmap : l.ledger.records.map AuditRecord.recordHash =
      l.appended.map AuditRecord.recordHash := by
    rw [← List.forall₂_eq_eq_eq, List.forall₂_map_left_iff, List.forall₂_map_right_iff]
    exact h.records.imp fun _ _ hkept => hkept.recordHash
  have last (rs : List AuditRecord) : rs.getLast?.bind AuditRecord.recordHash =
      (rs.map AuditRecord.recordHash).getLast?.join := by
    rw [List.getLast?_map]
    cases rs.getLast? <;> rfl
  rw [lastHash_eq, last, last, hmap]

/-- An append that made a record has put it at the end of everything. -/
theorem append_cases (h : Consistent keys l) (settings : LedgerSettings) (e : LedgerEntry) :
    (l.append settings keys e).2 = l ∨
      ∃ r,
        sealRecord keys e l.appended.length ((auditChain keys).lastHash none l.appended) = .ok r ∧
        (l.append settings keys e).2.path = l.path ∧
        (l.append settings keys e).2.ledger.records = l.ledger.records ++ [r] ∧
        (l.append settings keys e).2.lines =
          (if l.path then l.lines ++ [fileRecord r] else l.lines) ∧
        (l.append settings keys e).2.appended = l.appended ++ [r] ∧
        ((l.append settings keys e).2.anchored = l.anchored ∨ ∃ signature,
          (l.append settings keys e).2.anchored =
            l.anchored ++ [⟨r.sequence, r.recordHash, l.appended.length + 1, signature⟩]) := by
  unfold append AuditLedger.append
  rw [h.lastHash, h.records.length_eq]
  cases hseal : sealRecord keys e l.appended.length
      ((auditChain keys).lastHash none l.appended) with
  | error err => exact Or.inl rfl
  | ok r =>
    refine Or.inr ⟨r, rfl, ?_⟩
    dsimp only
    split
    · unfold emitCheckpoint
      dsimp only
      cases canonicalBytes (Checkpoint.signingDict r.sequence r.recordHash
          (l.ledger.records ++ [r]).length) with
      | error err => exact ⟨rfl, rfl, rfl, rfl, Or.inl rfl⟩
      | ok payload =>
        cases settings.anchorSink with
        | none => exact ⟨rfl, rfl, rfl, rfl, Or.inl rfl⟩
        | some sink =>
          have hcount : (l.ledger.records ++ [r]).length = l.appended.length + 1 := by
            rw [List.length_append, h.records.length_eq, List.length_singleton]
          dsimp only
          cases sink ⟨r.sequence, r.recordHash, (l.ledger.records ++ [r]).length,
              keys.sign payload⟩ with
          | error err => exact ⟨rfl, rfl, rfl, rfl, Or.inr ⟨_, by rw [hcount]⟩⟩
          | ok u => exact ⟨rfl, rfl, rfl, rfl, Or.inr ⟨_, by rw [hcount]⟩⟩
    · exact ⟨rfl, rfl, rfl, rfl, Or.inl rfl⟩

/-- Every call keeps the process and the file in step. -/
theorem Reachable.consistent {path : Bool} (h : Reachable keys path l) :
    Consistent keys l ∧ l.path = path := by
  induction h with
  | new => exact ⟨⟨history_nil, fun _ => rfl, .nil⟩, rfl⟩
  | @append l h settings e hpayload ih =>
    obtain ⟨hl, hpath⟩ := ih
    rcases append_cases hl settings e with hsame | ⟨r, hseal, hp, hrecords, hlines, happended, _⟩
    · rw [hsame]
      exact ⟨hl, hpath⟩
    · refine ⟨⟨?_, fun hfile => ?_, ?_⟩, hp.trans hpath⟩
      · rw [happended]
        exact hl.history.snoc hpayload hseal
      · rw [hp] at hfile
        rw [hlines, happended, if_pos hfile, hl.lines hfile, List.map_append, List.map_singleton]
      · rw [hrecords, happended]
        exact List.rel_append hl.records (.cons (Or.inl rfl) .nil)
  | @reload l h hpath ih =>
    obtain ⟨hl, hp⟩ := ih
    refine ⟨⟨hl.history, hl.lines, ?_⟩, hp⟩
    change List.Forall₂ Kept l.lines l.appended
    rw [hl.lines (hp.trans hpath), List.forall₂_map_left_iff]
    exact List.forall₂_same.mpr fun r _ => Or.inr rfl

end FileLedger

/-! ## Tampering -/

/-- The records as `append` made them, in the process, with a file or in a table. -/
def MadeByAppend (keys : KeyPair P) (history : List AuditRecord) : Prop :=
  (∃ path l, FileLedger.Reachable keys path l ∧ l.appended = history) ∨
    ∃ l, SqlAuditLedger.Reachable keys l ∧ l.rows = history

/-- One of the ledgers holds these records, and its `verify` returns `True`. -/
def Verifies (keys : KeyPair P) (records : List AuditRecord) : Prop :=
  (∃ l : FileLedger, l.ledger.records = records ∧ l.verify keys = .ok true) ∨
    ∃ l : SqlAuditLedger, l.records = records ∧ l.verify keys = .ok true

/-- Every signature of the list that verifies is over something `append` signs: the
hash of a record of the history, or a checkpoint. -/
def SignedByAppend (keys : KeyPair P) (history records : List AuditRecord) : Prop :=
  ∀ r ∈ records, ∀ message signature, r.recordHash = some message →
    r.signature = some signature → keys.verify message signature = true →
    (∃ s ∈ history, s.recordHash = some message) ∨
      ∃ sequence headHash count,
        canonicalBytes (Checkpoint.signingDict sequence headHash count) = .ok message

/-- No two records of the lists that are hashed differently have one hash. -/
def HashInjective (keys : KeyPair P) (history records : List AuditRecord) : Prop :=
  Set.InjOn P.sha256 ((auditChain keys).contents history ∪ (auditChain keys).contents records)

/-- Lists of records with hashes of their own, up to what is not hashed. -/
theorem hashInjective_of_sealed {all history records : List AuditRecord}
    (hsealed : ∀ r ∈ all, (auditChain keys).Sealed r)
    (hdistinct : (all.map AuditRecord.recordHash).Nodup)
    (hhistory : (auditChain keys).contents history ⊆ (auditChain keys).contents all)
    (hrecords : (auditChain keys).contents records ⊆ (auditChain keys).contents all) :
    HashInjective keys history records :=
  (Scheme.injOn_contents hsealed hdistinct).mono (Set.union_subset hhistory hrecords)

theorem MadeByAppend.history {history : List AuditRecord} (h : MadeByAppend keys history) :
    History keys history := by
  rcases h with ⟨path, l, hl, rfl⟩ | ⟨l, hl, rfl⟩
  · exact hl.consistent.1.history
  · exact hl.history

theorem Verifies.valid {records : List AuditRecord} (h : Verifies keys records) :
    (auditChain keys).Valid 0 none records := by
  rcases h with ⟨l, rfl, hverify⟩ | ⟨l, rfl, hverify⟩
  · exact verifyRecords_eq_true_iff.mp hverify
  · exact verifyRecords_eq_true_iff.mp hverify

/-- Records with one content and one hash differ at most in the signature. -/
theorem sameButSignature_of_content {r s : AuditRecord}
    (hhash : (auditChain keys).hash r = (auditChain keys).hash s)
    (hcontent : ∃ b, (auditChain keys).content r = some b ∧ (auditChain keys).content s = some b) :
    r.SameButSignature s := by
  obtain ⟨b, hr, hs⟩ := hcontent
  have hsame := AuditRecord.sameContent_of_canonicalBytes (content_eq_some_iff.mp hr)
    (content_eq_some_iff.mp hs)
  exact ⟨hsame, hhash⟩

/-- What the verifiers accept is the beginning of the history, as long as the key
signs only for the ledger and the hash tells the records apart. -/
theorem tampering_is_detected {history records : List AuditRecord}
    (hhistory : MadeByAppend keys history) (hinj : HashInjective keys history records)
    (hsigned : SignedByAppend keys history records)
    (hverifies : Verifies keys records) :
    records.length ≤ history.length ∧ ∀ (i : Nat) (r : AuditRecord), records[i]? = some r →
      ∃ s, history[i]? = some s ∧ r.SameButSignature s := by
  have hvalid := hverifies.valid
  have hknown : ∀ r ∈ records, ∃ s ∈ history,
      (auditChain keys).hash r = (auditChain keys).hash s := by
    intro r hr
    obtain ⟨i, hi⟩ := List.mem_iff_getElem?.mp hr
    obtain ⟨h, hhash, hrecord, hsignature⟩ := sealed_iff.mp (hvalid.getElem? hi).2
    obtain ⟨b, hb, rfl⟩ := hashRecord_eq_ok_iff.mp hhash
    cases hsome : r.signature with
    | none => simp [hsome] at hsignature
    | some signature =>
      have hgood : keys.verify (P.sha256 b) signature = true := by simpa [hsome] using hsignature
      rcases hsigned r hr _ signature hrecord hsome hgood with ⟨s, hs, hshash⟩ | hcheckpoint
      · exact ⟨s, hs, hrecord.trans hshash.symm⟩
      · -- a checkpoint is a JSON object, which no hash is
        obtain ⟨sequence, headHash, count, hmessage⟩ := hcheckpoint
        exact absurd hmessage (canonicalBytes_dict_ne_sha256 _ _)
  have hagree : ∀ (i : Nat) (r : AuditRecord), records[i]? = some r →
      ∃ s, history[i]? = some s ∧ r.SameButSignature s := by
    intro i r hi
    obtain ⟨s, hs, hhash, hcontent⟩ := hvalid.agree_at hhistory.history.valid
      (Set.union_comm _ _ ▸ hinj) hknown hi
    exact ⟨s, hs, sameButSignature_of_content hhash hcontent⟩
  refine ⟨?_, hagree⟩
  by_contra hlonger
  have hlast : history.length < records.length := Nat.lt_of_not_le hlonger
  obtain ⟨s, hs, _⟩ := hagree _ _ (List.getElem?_eq_getElem hlast)
  exact absurd (List.getElem?_eq_some_iff.mp hs).1 (Nat.lt_irrefl _)

/-! ### A ledger to check

A ledger with a file that anchors every second record, after three appends. -/

def demoKeys : KeyPair Primitives.tagged := KeyPair.ofPrivate _ "k"

def demoEntry : LedgerEntry where
  eventType := "e"
  payload := .dict [("a", .text "b")]
  actorId := some "human"
  recordId := "r"
  timestamp := "t"

/-- An entry with containers in its payload. -/
def nestedEntry : LedgerEntry where
  eventType := "workflow.event.proposed"
  payload := .dict [
    ("event", .dict [("intent", .text "close"), ("amount", .int 40)]),
    ("counts", .dict [(.int 1, .bool true), (.int 2, .none)]),
    ("reasons", .list [.text "x", .dict []])]
  actorId := some "agent"
  recordId := "r1"
  timestamp := "t1"

def lastEntry (actorId : String) : LedgerEntry :=
  { demoEntry with actorId := some actorId, recordId := "r2" }

def demoSettings : LedgerSettings where
  checkpointEvery := 2
  anchorSink := some fun _ => .ok ()

/-- The ledger after two appends, the second of which is anchored. -/
def anchoredLedger : FileLedger :=
  (FileLedger.append demoSettings demoKeys nestedEntry
    (FileLedger.append demoSettings demoKeys demoEntry { path := true }).2).2

def demoLedger : FileLedger :=
  (FileLedger.append demoSettings demoKeys (lastEntry "human") anchoredLedger).2

/-- The ledger with another record after the anchor. -/
def rewrittenLedger : FileLedger :=
  (FileLedger.append demoSettings demoKeys (lastEntry "somebody else") anchoredLedger).2

theorem anchoredLedger_reachable : FileLedger.Reachable demoKeys true anchoredLedger :=
  .append (.append .new demoSettings demoEntry (by decide)) demoSettings nestedEntry (by decide)

theorem demoLedger_reachable : FileLedger.Reachable demoKeys true demoLedger :=
  .append anchoredLedger_reachable demoSettings (lastEntry "human") (by decide)

theorem demoLedger_valid : (auditChain demoKeys).Valid 0 none demoLedger.appended :=
  demoLedger_reachable.consistent.1.history.valid

theorem rewrittenLedger_valid : (auditChain demoKeys).Valid 0 none rewrittenLedger.appended :=
  (FileLedger.Reachable.append anchoredLedger_reachable demoSettings (lastEntry "somebody else")
    (by decide)).consistent.1.history.valid

/-- The records of both ledgers. -/
def demoRecords : List AuditRecord := demoLedger.appended ++ rewrittenLedger.appended.drop 2

theorem demoLedger_subset : demoLedger.appended ⊆ demoRecords := List.subset_append_left _ _

theorem rewrittenLedger_subset : rewrittenLedger.appended ⊆ demoRecords := by
  have hsame : rewrittenLedger.appended.take 2 = demoLedger.appended.take 2 := rfl
  intro r hr
  rw [← List.take_append_drop 2 rewrittenLedger.appended, hsame] at hr
  rcases List.mem_append.mp hr with hfront | hlast
  · exact demoLedger_subset (List.take_subset _ _ hfront)
  · exact List.mem_append_right _ hlast

/-- Lists whose contents are among those of the two ledgers. -/
theorem demoRecords_hashInjective {history records : List AuditRecord}
    (hhistory : history ⊆ demoRecords)
    (hrecords : (auditChain demoKeys).contents records ⊆
      (auditChain demoKeys).contents demoRecords) :
    HashInjective demoKeys history records := by
  refine hashInjective_of_sealed (fun r hr => ?_) (by decide +kernel)
    ((auditChain demoKeys).contents_mono hhistory) hrecords
  rcases List.mem_append.mp hr with hdemo | hlast
  · exact demoLedger_valid.sealed hdemo
  · exact rewrittenLedger_valid.sealed (List.drop_subset _ _ hlast)

/-- The history without its last record is accepted, and it is the beginning of it. -/
theorem tampering_is_detected_demo : demoLedger.appended.length = 3 ∧
    (demoLedger.appended.take 2).length ≤ demoLedger.appended.length ∧
    ∀ (i : Nat) (r : AuditRecord), (demoLedger.appended.take 2)[i]? = some r →
      ∃ s, demoLedger.appended[i]? = some s ∧ r.SameButSignature s := by
  have hfront : demoLedger.appended.take 2 ⊆ demoLedger.appended := List.take_subset _ _
  refine ⟨by decide +kernel, tampering_is_detected
    (Or.inl ⟨true, demoLedger, demoLedger_reachable, rfl⟩) ?_
    (fun r hr _ _ hhash _ _ => Or.inl ⟨r, hfront hr, hhash⟩) ?_⟩
  · exact demoRecords_hashInjective demoLedger_subset
      ((auditChain demoKeys).contents_mono (List.Subset.trans hfront demoLedger_subset))
  · refine Or.inl ⟨{ path := false, ledger := ⟨demoLedger.appended.take 2⟩ }, rfl, ?_⟩
    exact verifyRecords_eq_true_iff.mpr (demoLedger_valid.of_prefix (List.take_prefix _ _))

/-! ## Anchors -/

namespace FileLedger

variable {l : FileLedger}

/-- A checkpoint names a record of the history, and how many records there were. -/
structure Names (history : List AuditRecord) (c : Checkpoint) : Prop where
  record : ∃ s, history[c.sequence]? = some s ∧ s.recordHash = c.headHash
  count : c.count = c.sequence + 1

/-- Later records do not change what a checkpoint names. -/
theorem Names.append {history : List AuditRecord} {c : Checkpoint} (h : Names history c)
    (later : List AuditRecord) : Names (history ++ later) c := by
  obtain ⟨s, hs, hhash⟩ := h.record
  have hlength := (List.getElem?_eq_some_iff.mp hs).1
  refine ⟨⟨s, ?_, hhash⟩, h.count⟩
  rwa [List.getElem?_append_left hlength]

/-- Every checkpoint that was handed out names a record that was appended. -/
theorem Reachable.names {path : Bool} (h : Reachable keys path l) :
    ∀ c ∈ l.anchored, Names l.appended c := by
  induction h with
  | new => simp
  | @append l h settings e hpayload ih =>
    rcases append_cases h.consistent.1 settings e with
      hsame | ⟨r, hseal, _, _, _, happended, hanchored⟩
    · rw [hsame]
      exact ih
    · rw [happended]
      intro c hc
      rcases hanchored with hanchored | ⟨signature, hanchored⟩
      · rw [hanchored] at hc
        exact (ih c hc).append [r]
      · rw [hanchored] at hc
        rcases List.mem_append.mp hc with hc | hc
        · exact (ih c hc).append [r]
        · have hsequence := (sealRecord_ok hseal).sequence
          rw [List.mem_singleton.mp hc]
          refine ⟨⟨r, ?_, rfl⟩, by rw [hsequence]⟩
          simp [hsequence]
  | reload h hpath ih => exact ih

/-- A checkpoint is handed out by an append, for the record it has put at the end. -/
theorem names_head (h : Consistent keys l) {settings : LedgerSettings} {e : LedgerEntry}
    {c : Checkpoint}
    (hc : (l.append settings keys e).2.anchored = l.anchored ++ [c]) :
    ∃ r, (l.append settings keys e).2.ledger.records.getLast? = some r ∧
      (l.append settings keys e).2.appended.getLast? = some r ∧
      c.sequence = r.sequence ∧ c.headHash = r.recordHash ∧
      c.count = (l.append settings keys e).2.ledger.records.length := by
  have more {cs : List Checkpoint} (hcs : cs = l.anchored ++ [c]) : cs ≠ l.anchored := by
    intro hsame
    have hlength := congrArg List.length (hsame.symm.trans hcs)
    simp at hlength
  rcases append_cases h settings e with hsame | ⟨r, _, _, hrecords, _, happended, hanchored⟩
  · exact absurd (congrArg anchored hsame) (more hc)
  · rcases hanchored with hanchored | ⟨signature, hanchored⟩
    · exact absurd hanchored (more hc)
    · have hcheckpoint := List.append_cancel_left (hc.symm.trans hanchored)
      obtain rfl := List.singleton_inj.mp hcheckpoint
      refine ⟨r, ?_, ?_, rfl, rfl, ?_⟩
      · rw [hrecords, List.getLast?_concat]
      · rw [happended, List.getLast?_concat]
      · rw [hrecords, List.length_append, h.records.length_eq, List.length_singleton]

end FileLedger

/-- An anchored checkpoint names the head at its time, and whoever rewrites the
chain, with the key, and keeps the anchored hash keeps the history up to it. -/
theorem anchored_history_is_fixed {path : Bool} {l : FileLedger}
    (h : FileLedger.Reachable keys path l) :
    (∀ settings e c, (l.append settings keys e).2.anchored = l.anchored ++ [c] →
      ∃ r, (l.append settings keys e).2.ledger.records.getLast? = some r ∧
        (l.append settings keys e).2.appended.getLast? = some r ∧
        c.sequence = r.sequence ∧ c.headHash = r.recordHash ∧
        c.count = (l.append settings keys e).2.ledger.records.length) ∧
    ∀ c ∈ l.anchored, ∀ records, HashInjective keys l.appended records →
      Verifies keys records →
      ∀ r ∈ records, r.sequence = c.sequence → r.recordHash = c.headHash →
        ∀ i ≤ c.sequence, ∃ r' s, records[i]? = some r' ∧ l.appended[i]? = some s ∧
          r'.SameButSignature s := by
  have hl := h.consistent.1
  refine ⟨fun settings e c hc => FileLedger.names_head hl hc, ?_⟩
  intro c hc records hinj hverifies r hr hsequence hhash i hi
  obtain ⟨s, hs, hshash⟩ := (h.names c hc).record
  have hvalid := hverifies.valid
  obtain ⟨j, hj⟩ := List.mem_iff_getElem?.mp hr
  -- an accepted record stands at its own number
  have hplace : r.sequence = 0 + j := (hvalid.getElem? hj).1
  have hat : records[c.sequence]? = some r := by
    rw [← hsequence, hplace, Nat.zero_add]
    exact hj
  obtain ⟨r', s', hr', hs', hhash', hcontent⟩ := hvalid.agree_below hl.history.valid
    (Set.union_comm _ _ ▸ hinj) hat hs (hhash.trans hshash.symm) hi
  exact ⟨r', s', hr', hs', sameButSignature_of_content hhash' hcontent⟩

/-- Whoever rewrites what comes after the anchor keeps the records up to it. -/
theorem anchored_history_is_fixed_demo :
    rewrittenLedger.appended[2]?.map AuditRecord.actorId ≠
      demoLedger.appended[2]?.map AuditRecord.actorId ∧
    ∃ c ∈ demoLedger.anchored, c.sequence = 1 ∧ ∃ r ∈ rewrittenLedger.appended,
      r.sequence = c.sequence ∧ r.recordHash = c.headHash ∧ ∀ i ≤ c.sequence,
        ∃ r' s, rewrittenLedger.appended[i]? = some r' ∧ demoLedger.appended[i]? = some s ∧
          r'.SameButSignature s := by
  refine ⟨by decide +kernel, ?_⟩
  have hanchored : demoLedger.anchored.map Checkpoint.sequence = [1] := by decide +kernel
  obtain ⟨c, hc, hsequence⟩ := List.map_eq_singleton_iff.mp hanchored
  have hmem : c ∈ demoLedger.anchored := by
    rw [hc]
    exact List.mem_singleton.mpr rfl
  obtain ⟨r, hr, hhash⟩ := (demoLedger_reachable.names c hmem).record
  -- the two ledgers share the record that is anchored
  have hr' : rewrittenLedger.appended[1]? = some r := by
    rw [hsequence] at hr
    exact hr
  have hnumber : r.sequence = c.sequence := by
    rw [hsequence]
    exact (rewrittenLedger_valid.getElem? hr').1
  have hrmem := List.mem_of_getElem? hr'
  refine ⟨c, hmem, hsequence, r, hrmem, hnumber, hhash,
    (anchored_history_is_fixed demoLedger_reachable).2 c hmem _ ?_ ?_ r hrmem hnumber hhash⟩
  · exact demoRecords_hashInjective demoLedger_subset
      ((auditChain demoKeys).contents_mono rewrittenLedger_subset)
  · refine Or.inl ⟨{ path := false, ledger := ⟨rewrittenLedger.appended⟩ }, rfl, ?_⟩
    exact verifyRecords_eq_true_iff.mpr rewrittenLedger_valid

end

end EarnedAutonomy
