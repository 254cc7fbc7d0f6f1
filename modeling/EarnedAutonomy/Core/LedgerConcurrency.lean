import EarnedAutonomy.Core.LedgerStorage
import EarnedAutonomy.Lib.Interleave
import Mathlib.Data.List.TakeWhile

/-!
# Many writers of one ledger

`SqlAuditLedger.append` on any number of replicas.  An instance has no state but
its keys, so a replica is known by its requests.  A transaction takes the lock
(`pg_advisory_xact_lock`, or the write lock of `BEGIN IMMEDIATE`), reads the head
of the committed rows and inserts the next one, which the others see from the
commit on.  The database can fail it at every stage, and a rollback leaves
nothing.

* `appendBody` is the transaction, one call after the other.
* `Serialised` is what the lock does: a request waits for it.
* `Serial` is the invariant: the request with the lock, if there is one, works on
  the rows as they are, and the rows are those of one table filled by `append`.
-/

namespace EarnedAutonomy

open Atomic Prog Service

/-! ## The transaction -/

/-- Where the database can fail a transaction. -/
inductive Stage where
  | waiting
  | begun
  | read
  | inserted
  deriving DecidableEq

/-- One call of `append`, and where it fails if it does. -/
structure AppendRequest where
  entry : LedgerEntry
  failsAt : Option Stage

/-- What a transaction raises. -/
inductive AppendError where
  | raised (error : PyError)
  | database

inductive LedgerOp where
  | lock
  | head
  | insert (record : AuditRecord)
  | commit (record : AuditRecord)
  | rollback

/-- An insert answers whether the sequence was free. -/
abbrev LedgerOp.Res : LedgerOp → Type
  | lock => Unit
  | head => Option (Nat × Option String)
  | insert _ => Bool
  | commit _ => Unit
  | rollback => Unit

/-- The committed rows by ascending sequence, and whether a transaction has the
lock. -/
structure LedgerDb where
  rows : List AuditRecord := []
  locked : Bool := false

/-- The rows with one more, in its place. -/
def insertRow (record : AuditRecord) (rows : List AuditRecord) : List AuditRecord :=
  let before (r : AuditRecord) : Bool := r.sequence < record.sequence
  rows.takeWhile before ++ record :: rows.dropWhile before

/-- A row is not in the table before its transaction commits. -/
def ledgerHandler : Handler LedgerOp.Res LedgerDb
  | .lock, db => ((), { db with locked := true })
  | .head, db => (SqlAuditLedger.head ⟨db.rows⟩, db)
  | .insert record, db => (!db.rows.any (·.sequence = record.sequence), db)
  | .commit record, db => ((), ⟨insertRow record db.rows, false⟩)
  | .rollback, db => ((), { db with locked := false })

abbrev AppendProg : Type := Prog AppendError LedgerOp.Res AuditRecord

abbrev ledgerCall (op : LedgerOp) : Prog AppendError LedgerOp.Res (LedgerOp.Res op) :=
  Prog.perform op

def rollback (e : AppendError) : AppendProg := do
  ledgerCall .rollback
  .raise e

def appendCommit (record : AuditRecord) : AppendProg := do
  ledgerCall (.commit record)
  return record

def appendInsert (r : AppendRequest) (record : AuditRecord) : AppendProg := do
  if ← ledgerCall (.insert record) then
    if r.failsAt = some .inserted then rollback .database else appendCommit record
  else rollback .database

variable {P : Primitives} (keys : KeyPair P)

/-- The sequence of the row after the head. -/
def nextSequence : Option (Nat × Option String) → Nat
  | some (sequence, _) => sequence + 1
  | none => 0

/-- Read the head under the lock and seal the next record. -/
def appendHead (r : AppendRequest) : AppendProg := do
  let head : Option (Nat × Option String) ← ledgerCall .head
  if r.failsAt = some .read then rollback .database
  else
    match sealRecord keys r.entry (nextSequence head) (head.bind Prod.snd) with
    | .ok record => appendInsert r record
    | .error e => rollback (.raised e)

/-- `append` -/
def appendBody (r : AppendRequest) : AppendProg :=
  if r.failsAt = some .waiting then .raise .database
  else do
    ledgerCall .lock
    if r.failsAt = some .begun then rollback .database else appendHead keys r

/-! ### The next call of each stage -/

theorem rollback_eq (e : AppendError) : rollback e = .call .rollback fun _ => .raise e := rfl

theorem appendCommit_eq (record : AuditRecord) :
    appendCommit record = .call (.commit record) fun _ => .done record := rfl

theorem appendInsert_eq (r : AppendRequest) (record : AuditRecord) :
    appendInsert r record = .call (.insert record) fun free =>
      if free then
        if r.failsAt = some .inserted then rollback .database else appendCommit record
      else rollback .database := rfl

theorem appendHead_eq (r : AppendRequest) :
    appendHead keys r = .call .head fun head =>
      if r.failsAt = some .read then rollback .database
      else
        match sealRecord keys r.entry (nextSequence head) (head.bind Prod.snd) with
        | .ok record => appendInsert r record
        | .error e => rollback (.raised e) := rfl

theorem appendBody_eq (r : AppendRequest) :
    appendBody keys r =
      if r.failsAt = some .waiting then .raise .database
      else .call .lock fun _ =>
        if r.failsAt = some .begun then rollback .database else appendHead keys r := rfl

/-! ### The replicas -/

def ledgerService : Service AppendError AppendRequest LedgerOp.Res AuditRecord LedgerDb where
  body := appendBody keys
  handler _ := ledgerHandler

abbrev LedgerPool := Pool AppendError AppendRequest LedgerOp.Res AuditRecord LedgerDb

/-- The next call of the request is for the lock. -/
def awaitsLock (p : LedgerPool) (i : Nat) : Bool :=
  match nextCall? p i with
  | some .lock => true
  | _ => false

/-- Payloads are JSON values, and the lock is given to one transaction at a time. -/
def Serialised (p : LedgerPool) : Move AppendRequest → Prop
  | .start r => jsonValue r.entry.payload = true
  | .advance i => awaitsLock p i = true → p.state.locked = false

instance (p : LedgerPool) : (m : Move AppendRequest) → Decidable (Serialised p m)
  | .start r => inferInstanceAs (Decidable (jsonValue r.entry.payload = true))
  | .advance i => inferInstanceAs (Decidable (awaitsLock p i = true → p.state.locked = false))

/-! ## The invariant -/

variable {keys}

/-- A request that has not begun or has ended. -/
def Idle (keys : KeyPair P) (t : Thread AppendError AppendRequest LedgerOp.Res AuditRecord) :
    Prop :=
  t.body = appendBody keys t.request ∨ (∃ record, t.body = .done record) ∨
    ∃ e, t.body = .raise e

/-- A transaction that has the lock, on these rows. -/
inductive Holding (keys : KeyPair P) (rows : List AuditRecord) (r : AppendRequest) :
    AppendProg → Prop where
  | head : Holding keys rows r (appendHead keys r)
  | insert {record : AuditRecord}
      (h : SqlAuditLedger.append keys r.entry ⟨rows⟩ = (.ok record, ⟨rows ++ [record]⟩)) :
      Holding keys rows r (appendInsert r record)
  | commit {record : AuditRecord}
      (h : SqlAuditLedger.append keys r.entry ⟨rows⟩ = (.ok record, ⟨rows ++ [record]⟩)) :
      Holding keys rows r (appendCommit record)
  | rollback (e : AppendError) : Holding keys rows r (rollback e)

/-- The records of the commits, in the order of the log. -/
def committed (log : List (Entry LedgerOp.Res)) : List AuditRecord :=
  log.filterMap fun e => match e.op with
    | .commit record => some record
    | _ => none

/-- The rows are those of one table, and at most one request works on them. -/
structure Serial (keys : KeyPair P) (p : LedgerPool) : Prop where
  reachable : SqlAuditLedger.Reachable keys ⟨p.state.rows⟩
  json : ∀ r ∈ p.state.rows, jsonValue r.payload = true
  order : p.state.rows = committed p.log
  requests : ∀ t ∈ p.threads, jsonValue t.request.entry.payload = true
  holder : ∃ h : Option Nat, p.state.locked = h.isSome ∧ (∀ j ∈ h, j < p.threads.length) ∧
    ∀ j t, p.threads[j]? = some t →
      if h = some j then Holding keys p.state.rows t.request t.body else Idle keys t

theorem serial_fresh : Serial keys (fresh {}) where
  reachable := .new
  json := by simp [fresh]
  order := rfl
  requests := by simp [fresh]
  holder := ⟨none, rfl, by simp, by simp [fresh]⟩

/-- On the rows of a table the next row goes to the end. -/
theorem insertRow_eq {rows : List AuditRecord} {record : AuditRecord}
    (h : ∀ r ∈ rows, r.sequence < record.sequence) : insertRow record rows = rows ++ [record] := by
  have htake := List.takeWhile_eq_self_iff.mpr fun r hr => decide_eq_true (h r hr)
  have hdrop := List.dropWhile_eq_nil_iff.mpr fun r hr => decide_eq_true (h r hr)
  unfold insertRow
  dsimp only
  rw [htake, hdrop]

/-- What an append to a table of records adds. -/
theorem append_record {rows : List AuditRecord} {e : LedgerEntry} {record : AuditRecord}
    (hrows : History keys rows)
    (h : SqlAuditLedger.append keys e ⟨rows⟩ = (.ok record, ⟨rows ++ [record]⟩)) :
    SealedFor keys e rows.length ((auditChain keys).lastHash none rows) record := by
  rw [SqlAuditLedger.append_eq hrows.valid] at h
  dsimp only at h
  cases hseal : sealRecord keys e rows.length ((auditChain keys).lastHash none rows) with
  | error err =>
    rw [hseal] at h
    cases h
  | ok r =>
    rw [hseal] at h
    cases h
    exact sealRecord_ok hseal

/-- The record `append` makes, from the answer of `head`. -/
theorem append_eq_head (e : LedgerEntry) (rows : List AuditRecord) :
    SqlAuditLedger.append keys e ⟨rows⟩ =
      match sealRecord keys e (nextSequence (SqlAuditLedger.head ⟨rows⟩))
        ((SqlAuditLedger.head ⟨rows⟩).bind Prod.snd) with
      | .ok record => (.ok record, ⟨rows ++ [record]⟩)
      | .error err => (.error err, ⟨rows⟩) := by
  unfold SqlAuditLedger.append SqlAuditLedger.head
  dsimp only
  cases rows.getLast? <;> rfl

theorem sequence_lt {rows : List AuditRecord} {e : LedgerEntry} {record : AuditRecord}
    (hrows : History keys rows)
    (h : SqlAuditLedger.append keys e ⟨rows⟩ = (.ok record, ⟨rows ++ [record]⟩)) :
    ∀ r ∈ rows, r.sequence < record.sequence := by
  intro r hr
  obtain ⟨i, hi⟩ := List.mem_iff_getElem?.mp hr
  have hplace := (hrows.valid.getElem? hi).1
  have hlt := (List.getElem?_eq_some_iff.mp hi).1
  have hplace : r.sequence = 0 + i := hplace
  rw [(append_record hrows h).sequence]
  omega

/-! ## One move -/

variable {p : LedgerPool} {i : Nat} {r : AppendRequest}

theorem Serial.start (hp : Serial keys p) (hr : jsonValue r.entry.payload = true) :
    Serial keys ((ledgerService keys).move p (.start r)) := by
  obtain ⟨h, hlocked, hrange, hthreads⟩ := hp.holder
  refine ⟨hp.reachable, hp.json, hp.order, ?_, h, hlocked, ?_, ?_⟩
  · intro t ht
    rcases List.mem_append.mp ht with ht | ht
    · exact hp.requests t ht
    · rw [List.mem_singleton.mp ht]
      exact hr
  · intro j hj
    have hlt := hrange j hj
    simp only [Service.move, List.length_append, List.length_singleton]
    omega
  · intro j t hj
    rcases Nat.lt_or_ge j p.threads.length with hlt | hge
    · simp only [Service.move, List.getElem?_append_left hlt] at hj
      exact hthreads j t hj
    · have hnot : h ≠ some j := fun heq => absurd (hrange j heq) (by omega)
      simp only [Service.move, List.getElem?_append_right hge] at hj
      have ht := List.mem_singleton.mp (List.mem_of_getElem? hj)
      rw [if_neg hnot, ht]
      exact Or.inl rfl

/-- After a call of the one request that is not idle. -/
theorem Serial.answered (hp : Serial keys p) {op : LedgerOp}
    {next : LedgerOp.Res op → AppendProg} (hi : p.threads[i]? = some ⟨r, .call op next⟩)
    (hothers : ∀ j t, j ≠ i → p.threads[j]? = some t → Idle keys t)
    {db : LedgerDb} {a : LedgerOp.Res op}
    (hreachable : SqlAuditLedger.Reachable keys ⟨db.rows⟩)
    (hjson : ∀ r ∈ db.rows, jsonValue r.payload = true)
    (horder : db.rows = committed (p.log ++ [⟨i, op, a⟩]))
    (hnext : if db.locked then Holding keys db.rows r (next a) else Idle keys ⟨r, next a⟩) :
    Serial keys ⟨db, p.threads.set i ⟨r, next a⟩, p.log ++ [⟨i, op, a⟩]⟩ := by
  have hlt := (List.getElem?_eq_some_iff.mp hi).1
  refine ⟨hreachable, hjson, horder, ?_, if db.locked then some i else none, ?_, ?_, ?_⟩
  · intro t ht
    rcases List.mem_or_eq_of_mem_set ht with ht | rfl
    · exact hp.requests t ht
    · exact hp.requests ⟨r, .call op next⟩ (List.mem_of_getElem? hi)
  · cases db.locked <;> rfl
  · intro j hj
    cases hlocked : db.locked with
    | false => simp [hlocked] at hj
    | true =>
      have hij : i = j := by simpa [hlocked] using hj
      simpa [← hij] using hlt
  · intro j t hj
    by_cases hij : i = j
    · subst hij
      simp only [List.getElem?_set_self hlt, Option.some.injEq] at hj
      subst hj
      cases hlocked : db.locked <;> simpa [hlocked] using hnext
    · simp only [List.getElem?_set_ne hij] at hj
      have hidle := hothers j t (Ne.symm hij) hj
      cases hlocked : db.locked <;> simpa [hlocked, hij] using hidle

theorem committed_snoc (log : List (Entry LedgerOp.Res)) (e : Entry LedgerOp.Res) :
    committed (log ++ [e]) = committed log ++ committed [e] := List.filterMap_append

/-- The transaction with the lock makes its next call. -/
theorem Serial.held (hp : Serial keys p) {op : LedgerOp} {next : LedgerOp.Res op → AppendProg}
    (hi : p.threads[i]? = some ⟨r, .call op next⟩)
    (hothers : ∀ j t, j ≠ i → p.threads[j]? = some t → Idle keys t)
    (hlocked : p.state.locked = true)
    (hholding : Holding keys p.state.rows r (.call op next)) :
    Serial keys ⟨(ledgerHandler op p.state).2,
      p.threads.set i ⟨r, next (ledgerHandler op p.state).1⟩,
      p.log ++ [⟨i, op, (ledgerHandler op p.state).1⟩]⟩ := by
  have hrequest := hp.requests _ (List.mem_of_getElem? hi)
  generalize hbody : Prog.call op next = body at hholding
  have horder (a : LedgerOp.Res op) (hop : committed [⟨i, op, a⟩] = []) :
      p.state.rows = committed (p.log ++ [⟨i, op, a⟩]) := by
    rw [committed_snoc, hop, List.append_nil]
    exact hp.order
  cases hholding with
  | head =>
    rw [appendHead_eq] at hbody
    cases hbody
    refine hp.answered hi hothers hp.reachable hp.json (horder _ rfl) ?_
    change if p.state.locked then _ else _
    rw [if_pos hlocked]
    have happend := @append_eq_head _ keys r.entry p.state.rows
    dsimp only [ledgerHandler]
    split
    · exact .rollback _
    · split
      · rename_i record hseal
        rw [hseal] at happend
        exact .insert happend
      · exact .rollback _
  | insert h =>
    rw [appendInsert_eq] at hbody
    cases hbody
    refine hp.answered hi hothers hp.reachable hp.json (horder _ rfl) ?_
    change if p.state.locked then _ else _
    rw [if_pos hlocked]
    split
    · split
      · exact .rollback _
      · exact .commit h
    · exact .rollback _
  | @commit record h =>
    rw [appendCommit_eq] at hbody
    cases hbody
    have hrows := insertRow_eq (sequence_lt hp.reachable.history h)
    have hreachable := hp.reachable.append r.entry (textOrdered_of_jsonValue hrequest).1
    rw [h] at hreachable
    refine hp.answered hi hothers ?_ ?_ ?_ (Or.inr (Or.inl ⟨_, rfl⟩))
    · change SqlAuditLedger.Reachable keys ⟨insertRow record p.state.rows⟩
      rw [hrows]
      exact hreachable
    · change ∀ s ∈ insertRow record p.state.rows, jsonValue s.payload = true
      rw [hrows]
      intro s hs
      rcases List.mem_append.mp hs with hs | hs
      · exact hp.json s hs
      · rw [List.mem_singleton.mp hs, (append_record hp.reachable.history h).payload]
        exact hrequest
    · change insertRow record p.state.rows = _
      rw [hrows, committed_snoc, ← hp.order]
      rfl
  | rollback e =>
    rw [rollback_eq] at hbody
    cases hbody
    exact hp.answered hi hothers hp.reachable hp.json (horder _ rfl) (Or.inr (Or.inr ⟨_, rfl⟩))

/-- A request takes the lock when it is free. -/
theorem Serial.locks (hp : Serial keys p) {op : LedgerOp} {next : LedgerOp.Res op → AppendProg}
    (hi : p.threads[i]? = some ⟨r, .call op next⟩)
    (hothers : ∀ j t, j ≠ i → p.threads[j]? = some t → Idle keys t)
    (hidle : Idle keys ⟨r, .call op next⟩) :
    Serial keys ⟨(ledgerHandler op p.state).2,
      p.threads.set i ⟨r, next (ledgerHandler op p.state).1⟩,
      p.log ++ [⟨i, op, (ledgerHandler op p.state).1⟩]⟩ := by
  rcases hidle with hbody | ⟨record, hbody⟩ | ⟨e, hbody⟩
  · change Prog.call op next = appendBody keys r at hbody
    rw [appendBody_eq] at hbody
    split at hbody
    · cases hbody
    · cases hbody
      refine hp.answered hi hothers hp.reachable hp.json ?_ ?_
      · rw [committed_snoc]
        exact hp.order.trans (List.append_nil _).symm
      · change Holding keys p.state.rows r _
        split
        · exact .rollback _
        · exact .head
  · cases hbody
  · cases hbody

/-- The lock keeps the table serial. -/
theorem Serial.move (hp : Serial keys p) (m : Move AppendRequest) (hm : Serialised p m) :
    Serial keys ((ledgerService keys).move p m) := by
  cases m with
  | start r => exact hp.start hm
  | advance i =>
    rcases (ledgerService keys).move_advance_cases p i with hsame | ⟨r, op, next, hi, hmove⟩
    · rw [hsame]
      exact hp
    · rw [hmove]
      obtain ⟨h, hlocked, _, hthreads⟩ := hp.holder
      have hthread := hthreads i _ hi
      by_cases hh : h = some i
      · subst hh
        rw [if_pos rfl] at hthread
        refine hp.held hi (fun j t hji hj => ?_) hlocked hthread
        have ht := hthreads j t hj
        rwa [if_neg fun heq => hji (Option.some.inj heq).symm] at ht
      · rw [if_neg hh] at hthread
        have hop : op = .lock := by
          rcases hthread with hbody | ⟨record, hbody⟩ | ⟨e, hbody⟩
          · change Prog.call op next = appendBody keys r at hbody
            rw [appendBody_eq] at hbody
            split at hbody
            · cases hbody
            · cases hbody
              rfl
          · cases hbody
          · cases hbody
        -- the request waited until no transaction had the lock
        have hwaits : awaitsLock p i = true := by
          rw [awaitsLock, nextCall?_eq_some_iff.mpr ⟨r, next, hi⟩, hop]
        have hfree := hm hwaits
        rw [hlocked, Option.isSome_eq_false_iff, Option.isNone_iff_eq_none] at hfree
        refine hp.locks hi (fun j t _ hj => ?_) hthread
        have ht := hthreads j t hj
        rwa [if_neg (by simp [hfree])] at ht

theorem serial_of_leads (h : (ledgerService keys).Leads Serialised (fresh {}) p) :
    Serial keys p :=
  h.invariant (fun _ m _ _ hp hm => hp.move m hm) serial_fresh

/-! ## What one request commits -/

/-- The records a request has committed, among these calls. -/
def commits (calls : List ((op : LedgerOp) × LedgerOp.Res op)) : List AuditRecord :=
  calls.filterMap fun c => match c.1 with
    | .commit record => some record
    | _ => none

/-- What the request has returned. -/
def returned : AppendProg → List AuditRecord
  | .done record => [record]
  | _ => []

/-- Along every path the request has committed what it returned, a record of its
entry. -/
def CommitsItsRecord (r : AppendRequest) (body : AppendProg) : Prop :=
  ∀ calls rest, Follows body calls rest →
    commits calls = returned rest ∧ ∀ record ∈ returned rest, record.IsFor r.entry

theorem commitsItsRecord_raise (e : AppendError) : CommitsItsRecord r (.raise e) := by
  intro calls rest h
  obtain ⟨rfl, rfl⟩ := follows_raise_iff.mp h
  exact ⟨rfl, by simp [returned]⟩

/-- A call that does not commit, and then the rest. -/
theorem commitsItsRecord_call {op : LedgerOp} {next : LedgerOp.Res op → AppendProg}
    (hop : ∀ a, commits [⟨op, a⟩] = []) (hnext : ∀ a, CommitsItsRecord r (next a)) :
    CommitsItsRecord r (.call op next) := by
  intro calls rest h
  rcases follows_call_iff.mp h with ⟨rfl, rfl⟩ | ⟨a, later, rfl, hlater⟩
  · exact ⟨rfl, by simp [returned]⟩
  · obtain ⟨hcommits, hfor⟩ := hnext a later rest hlater
    refine ⟨?_, hfor⟩
    have hsplit : commits (⟨op, a⟩ :: later) = commits [⟨op, a⟩] ++ commits later :=
      List.filterMap_append (l := [_])
    rw [hsplit, hop, List.nil_append, hcommits]

theorem commitsItsRecord_rollback (e : AppendError) : CommitsItsRecord r (rollback e) :=
  commitsItsRecord_call (fun _ => rfl) fun _ => commitsItsRecord_raise e

theorem commitsItsRecord_commit {record : AuditRecord} (hfor : record.IsFor r.entry) :
    CommitsItsRecord r (appendCommit record) := by
  intro calls rest h
  rw [appendCommit_eq] at h
  rcases follows_call_iff.mp h with ⟨rfl, rfl⟩ | ⟨a, later, rfl, hlater⟩
  · exact ⟨rfl, by simp [returned]⟩
  · obtain ⟨rfl, rfl⟩ := follows_done_iff.mp hlater
    refine ⟨rfl, fun record' hrecord => ?_⟩
    rw [List.mem_singleton.mp hrecord]
    exact hfor

theorem commitsItsRecord_body (r : AppendRequest) : CommitsItsRecord r (appendBody keys r) := by
  have hrollback (e : AppendError) := commitsItsRecord_rollback (r := r) e
  rw [appendBody_eq]
  split
  · exact commitsItsRecord_raise _
  · refine commitsItsRecord_call (fun _ => rfl) fun _ => ?_
    split
    · exact hrollback _
    · rw [appendHead_eq]
      refine commitsItsRecord_call (fun _ => rfl) fun head => ?_
      split
      · exact hrollback _
      · split
        · rename_i record hseal
          obtain ⟨htype, hactor, hpayload⟩ := sealRecord_isFor hseal
          rw [appendInsert_eq]
          refine commitsItsRecord_call (fun _ => rfl) fun free => ?_
          split
          · split
            · exact hrollback _
            · exact commitsItsRecord_commit ⟨htype, hactor, Or.inl hpayload⟩
          · exact hrollback _
        · exact hrollback _

/-! ## One chain -/

/-- Any number of writers, in any interleaving of their transactions and with any of
them failing at any stage: the rows are the commits in their order, numbered from 0,
one for each request that returned and none for the others, the head names the last
of them, and the chain verifies. -/
theorem one_verifiable_chain (h : (ledgerService keys).Leads Serialised (fresh {}) p) :
    p.state.rows.map AuditRecord.sequence = List.range p.state.rows.length ∧
    p.state.rows = committed p.log ∧
    (∀ i r body, p.threads[i]? = some ⟨r, body⟩ → commits (calls p.log i) = returned body ∧
      ∀ record ∈ returned body, record.IsFor r.entry) ∧
    SqlAuditLedger.head ⟨p.state.rows⟩ =
      (committed p.log).getLast?.map (fun r => (r.sequence, r.recordHash)) ∧
    SqlAuditLedger.verify keys ⟨p.state.rows⟩ = .ok true := by
  have hserial := serial_of_leads h
  have hhistory := hserial.reachable.history
  refine ⟨?_, hserial.order, fun i r body hi => ?_, ?_, ?_⟩
  · refine List.ext_getElem? fun i => ?_
    rw [List.getElem?_map]
    cases hi : p.state.rows[i]? with
    | none =>
      have hlength := List.getElem?_eq_none_iff.mp hi
      simp [hlength]
    | some r =>
      have hlength := (List.getElem?_eq_some_iff.mp hi).1
      have hsequence : r.sequence = 0 + i := (hhistory.valid.getElem? hi).1
      rw [List.getElem?_range hlength, Option.map_some, hsequence, Nat.zero_add]
  · exact commitsItsRecord_body r _ _ (h.follows hi)
  · rw [← hserial.order]
    rfl
  · refine verify_of_textOrdered readsAsColumn_jsonColumn hhistory
      (forall₂_readBack jsonColumn p.state.rows) fun s hs => ?_
    obtain ⟨i, _, hi⟩ := hs
    exact (textOrdered_of_jsonValue (hserial.json s (List.mem_of_getElem? hi))).2

/-! ### Two writers

The first commits while the second waits, and the second is rolled back. -/

def demoWriters : List (Move AppendRequest) :=
  [.start ⟨demoEntry, none⟩, .start ⟨demoEntry, some .begun⟩, .advance 0, .advance 0, .advance 0,
    .advance 0, .advance 1, .advance 1]

def demoWritten : LedgerPool := (ledgerService demoKeys).schedule (fresh {}) demoWriters

theorem one_verifiable_chain_demo :
    (committed demoWritten.log).length = 1 ∧
    demoWritten.state.rows.map AuditRecord.sequence = List.range demoWritten.state.rows.length ∧
    demoWritten.state.rows = committed demoWritten.log ∧
    (∀ i r body, demoWritten.threads[i]? = some ⟨r, body⟩ →
      commits (calls demoWritten.log i) = returned body ∧
        ∀ record ∈ returned body, record.IsFor r.entry) ∧
    SqlAuditLedger.head ⟨demoWritten.state.rows⟩ =
      (committed demoWritten.log).getLast?.map (fun r => (r.sequence, r.recordHash)) ∧
    SqlAuditLedger.verify demoKeys ⟨demoWritten.state.rows⟩ = .ok true := by
  refine ⟨by decide +kernel, one_verifiable_chain (leads_schedule ?_)⟩
  refine ⟨?_, ?_, ?_, ?_, ?_, ?_, ?_, ?_, trivial⟩
  all_goals decide +kernel

end EarnedAutonomy
