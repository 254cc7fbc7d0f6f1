import EarnedAutonomy.Core.Models
import EarnedAutonomy.Crypto
import EarnedAutonomy.Python.JsonStorage

/-!
# The audit ledger

`core/ledger.py` and `core/ledger_sql.py`: records that name the hash of the
record before them, each hashed over its canonical bytes and signed.

* `AuditLedger` keeps the records in the process, without a file.
* `FileLedger` is an `AuditLedger` with its file and its anchor sink.
* `SqlAuditLedger` keeps them in a table.  A payload comes back from its JSON
  column as JSON reads it.
* `verifyRecords` is the loop that all of them verify with.
* `LawfulAuditLog` is what callers rely on: an append that returns has added
  one record, one that raises has added none.

The id and the time of a record are arguments of `append` here.
-/

namespace EarnedAutonomy

/-- `hash_record`: over the record without its hash and signature. -/
def hashRecord (P : Primitives) (r : AuditRecord) : Except PyError String := do
  return P.sha256 (← canonicalBytes { r with recordHash := none, signature := none }.toDict)

/-- What the caller hands to `append`, with the id and the time of the record. -/
structure LedgerEntry where
  eventType : String
  payload : PyVal
  actorId : Option String
  recordId : String
  timestamp : String

/-- The record of an entry, linked, hashed and signed. -/
def sealRecord {P : Primitives} (keys : KeyPair P) (e : LedgerEntry) (sequence : Nat)
    (previousHash : Option String) : Except PyError AuditRecord := do
  let record : AuditRecord := {
    eventType := e.eventType
    payload := e.payload
    actorId := e.actorId
    recordId := e.recordId
    timestamp := e.timestamp
    sequence := sequence
    previousHash := previousHash
    recordHash := none
    signature := none }
  let hash ← hashRecord P record
  return { record with recordHash := some hash, signature := some (keys.sign hash) }

/-- The loop of `verify` from record `i` on, after a record with this hash. -/
def verifyFrom {P : Primitives} (keys : KeyPair P) :
    Nat → Option String → List AuditRecord → Except PyError Bool
  | _, _, [] => .ok true
  | i, previousHash, r :: rest =>
      if r.sequence ≠ i then .ok false
      else if r.previousHash ≠ previousHash then .ok false
      else do
        let expected ← hashRecord P r
        if r.recordHash ≠ some expected then return false
        else if !(r.signature.any fun signature => keys.verify expected signature) then
          return false
        else verifyFrom keys (i + 1) r.recordHash rest

/-- `verify` of these records -/
def verifyRecords {P : Primitives} (keys : KeyPair P) (records : List AuditRecord) :
    Except PyError Bool :=
  verifyFrom keys 0 none records

/-- The interface of a ledger. -/
class AuditLog (L : Type) where
  empty : L
  append : {P : Primitives} → KeyPair P → LedgerEntry → L → Except PyError AuditRecord × L
  records : L → List AuditRecord

/-! ## In the process -/

/-- `AuditLedger` -/
structure AuditLedger where
  records : List AuditRecord := []

namespace AuditLedger

def append {P : Primitives} (keys : KeyPair P) (e : LedgerEntry) (l : AuditLedger) :
    Except PyError AuditRecord × AuditLedger :=
  match sealRecord keys e l.records.length (l.records.getLast?.bind AuditRecord.recordHash) with
  | .ok record => (.ok record, ⟨l.records ++ [record]⟩)
  | .error err => (.error err, l)

instance : AuditLog AuditLedger where
  empty := {}
  append := append
  records := AuditLedger.records

end AuditLedger

/-! ## With a file and checkpoints -/

/-- What `_emit_checkpoint` hands to the anchor sink. -/
structure Checkpoint where
  sequence : Nat
  headHash : Option String
  count : Nat
  signature : String

/-- The signed part of a checkpoint. -/
def Checkpoint.signingDict (sequence : Nat) (headHash : Option String) (count : Nat) : PyVal :=
  .dict [
    ("type", .text "ledger_checkpoint"),
    ("sequence", .int sequence),
    ("head_hash", .optText headHash),
    ("count", .int count)]

/-- The arguments of an `AuditLedger` besides its keys and its path.  A sink is
code of the deployment and may raise. -/
structure LedgerSettings where
  checkpointEvery : Int := 100
  anchorSink : Option (Checkpoint → Except PyError Unit) := none

/-- An `AuditLedger` with what it has written: the lines of its file, as they
are read back, and the checkpoints that were handed out.  `appended` has every
record as `append` made it, which the source does not keep. -/
structure FileLedger where
  path : Bool
  ledger : AuditLedger := {}
  lines : List AuditRecord := []
  anchored : List Checkpoint := []
  appended : List AuditRecord := []

/-- A record after its line was written and read. -/
def fileRecord (r : AuditRecord) : AuditRecord := { r with payload := fileValue r.payload }

namespace FileLedger

variable {P : Primitives}

/-- `_emit_checkpoint`, for the head of the records. -/
def emitCheckpoint (settings : LedgerSettings) (keys : KeyPair P) (head : AuditRecord)
    (l : FileLedger) : Except PyError Unit × FileLedger :=
  let count := l.ledger.records.length
  match canonicalBytes (Checkpoint.signingDict head.sequence head.recordHash count) with
  | .error err => (.error err, l)
  | .ok payload =>
      let checkpoint : Checkpoint := ⟨head.sequence, head.recordHash, count, keys.sign payload⟩
      match settings.anchorSink with
      | none => (.ok (), l)
      | some sink => (sink checkpoint, { l with anchored := l.anchored ++ [checkpoint] })

/-- `append`: the record, its line and, after every so many records, a checkpoint. -/
def append (settings : LedgerSettings) (keys : KeyPair P) (e : LedgerEntry) (l : FileLedger) :
    Except PyError AuditRecord × FileLedger :=
  match AuditLedger.append keys e l.ledger with
  | (.error err, _) => (.error err, l)
  | (.ok record, ledger) =>
      let l := { l with
        ledger := ledger
        lines := if l.path then l.lines ++ [fileRecord record] else l.lines
        appended := l.appended ++ [record] }
      if settings.checkpointEvery ≠ 0 ∧
          ((record.sequence : Int) + 1) % settings.checkpointEvery = 0 then
        match emitCheckpoint settings keys record l with
        | (.error err, l) => (.error err, l)
        | (.ok _, l) => (.ok record, l)
      else (.ok record, l)

/-- A new `AuditLedger` on the file, with the records of `_load_records`. -/
def reload (l : FileLedger) : FileLedger := { l with ledger := ⟨l.lines⟩ }

def verify (keys : KeyPair P) (l : FileLedger) : Except PyError Bool :=
  verifyRecords keys l.ledger.records

/-- A ledger with or without a file after any calls of `append`, with any
settings, and any reloads from its file. -/
inductive Reachable (keys : KeyPair P) (path : Bool) : FileLedger → Prop where
  | new : Reachable keys path { path := path }
  | append {l : FileLedger} (h : Reachable keys path l) (settings : LedgerSettings)
      (e : LedgerEntry) (hpayload : wellFormed e.payload = true) :
      Reachable keys path (l.append settings keys e).2
  | reload {l : FileLedger} (h : Reachable keys path l) (hpath : path = true) :
      Reachable keys path l.reload

end FileLedger

/-! ## In the database -/

/-- `SqlAuditLedger`: the rows of `audit_ledger` by ascending sequence. -/
structure SqlAuditLedger where
  rows : List AuditRecord := []

namespace SqlAuditLedger

/-- One transaction under the lock: read the head, insert the next row. -/
def append {P : Primitives} (keys : KeyPair P) (e : LedgerEntry) (l : SqlAuditLedger) :
    Except PyError AuditRecord × SqlAuditLedger :=
  let sequence := match l.rows.getLast? with
    | some head => head.sequence + 1
    | none => 0
  match sealRecord keys e sequence (l.rows.getLast?.bind AuditRecord.recordHash) with
  | .ok record => (.ok record, ⟨l.rows ++ [record]⟩)
  | .error err => (.error err, l)

def records (l : SqlAuditLedger) : List AuditRecord :=
  l.rows.map fun r => { r with payload := jsonColumn r.payload }

def verify {P : Primitives} (keys : KeyPair P) (l : SqlAuditLedger) : Except PyError Bool :=
  verifyRecords keys l.records

/-- `head`: the sequence and the hash of the newest row. -/
def head (l : SqlAuditLedger) : Option (Nat × Option String) :=
  l.rows.getLast?.map fun r => (r.sequence, r.recordHash)

/-- A table after any calls of `append`. -/
inductive Reachable {P : Primitives} (keys : KeyPair P) : SqlAuditLedger → Prop where
  | new : Reachable keys {}
  | append {l : SqlAuditLedger} (h : Reachable keys l) (e : LedgerEntry)
      (hpayload : wellFormed e.payload = true) : Reachable keys (l.append keys e).2

instance : AuditLog SqlAuditLedger where
  empty := {}
  append := append
  records := records

end SqlAuditLedger

/-! ## What callers rely on -/

/-- The record was made for the entry.  A payload read back from a JSON column
is what JSON has made of it. -/
def AuditRecord.IsFor (r : AuditRecord) (e : LedgerEntry) : Prop :=
  r.eventType = e.eventType ∧ r.actorId = e.actorId ∧
    (r.payload = e.payload ∨ r.payload = jsonColumn e.payload)

/-- The laws of an append-only ledger. -/
class LawfulAuditLog (L : Type) [AuditLog L] : Prop where
  records_empty : AuditLog.records (AuditLog.empty : L) = []
  append_ok : ∀ {P : Primitives} (keys : KeyPair P) (e : LedgerEntry) (l : L) r l',
    AuditLog.append keys e l = (.ok r, l') →
      ∃ r', AuditLog.records l' = AuditLog.records l ++ [r'] ∧ r'.IsFor e
  append_error : ∀ {P : Primitives} (keys : KeyPair P) (e : LedgerEntry) (l : L) err l',
    AuditLog.append keys e l = (.error err, l') → AuditLog.records l' = AuditLog.records l

theorem sealRecord_isFor {P : Primitives} {keys : KeyPair P} {e : LedgerEntry} {n : Nat}
    {previous : Option String} {r : AuditRecord} (h : sealRecord keys e n previous = .ok r) :
    r.eventType = e.eventType ∧ r.actorId = e.actorId ∧ r.payload = e.payload := by
  unfold sealRecord at h
  dsimp only at h
  cases hhash : hashRecord P ⟨e.eventType, e.payload, e.actorId, e.recordId, e.timestamp, n,
      previous, none, none⟩ with
  | error err =>
    rw [hhash] at h
    cases h
  | ok hash =>
    rw [hhash] at h
    cases h
    exact ⟨rfl, rfl, rfl⟩

instance : LawfulAuditLog AuditLedger where
  records_empty := rfl
  append_ok keys e l r l' h := by
    simp only [AuditLog.append, AuditLedger.append] at h
    split at h
    · rename_i record hseal
      cases h
      obtain ⟨htype, hactor, hpayload⟩ := sealRecord_isFor hseal
      exact ⟨r, rfl, htype, hactor, Or.inl hpayload⟩
    · cases h
  append_error keys e l err l' h := by
    simp only [AuditLog.append, AuditLedger.append] at h
    split at h <;> cases h
    rfl

instance : LawfulAuditLog SqlAuditLedger where
  records_empty := rfl
  append_ok keys e l r l' h := by
    simp only [AuditLog.append, SqlAuditLedger.append] at h
    split at h
    · rename_i record hseal
      cases h
      obtain ⟨htype, hactor, hpayload⟩ := sealRecord_isFor hseal
      refine ⟨{ r with payload := jsonColumn r.payload }, ?_, htype, hactor,
        Or.inr (congrArg jsonColumn hpayload)⟩
      simp [AuditLog.records, SqlAuditLedger.records]
    · cases h
  append_error keys e l err l' h := by
    simp only [AuditLog.append, SqlAuditLedger.append] at h
    split at h <;> cases h
    rfl

end EarnedAutonomy
