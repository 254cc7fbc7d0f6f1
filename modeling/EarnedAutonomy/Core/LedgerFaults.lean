import EarnedAutonomy.Core.LedgerStorage

/-!
# Appends that fail

`AuditLedger.append` adds the record to its list, then writes the line, then hands out a
checkpoint, and undoes nothing when a later step raises.

* `FileLedger.appendUnder` is `append` with what goes wrong during the call, and
  `appendUnder_none` says that it is `append` where nothing does.
* `raises_iff` says when a call raises: early, before the record is in the list, or late.
* `failed_append_leaves_no_trace_iff`: a call that raises leaves the records and the file
  exactly if it raises early, and a ledger where no call raises late verifies.
* `verify_appendUnder` and `lost_line_breaks_chain`: a line that was not written does not show
  in the process, and is never made up for in the file.
-/

namespace EarnedAutonomy

open HashChain

/-! ## A call in which something goes wrong -/

/-- The exceptions that a call of `append` meets, besides those of the encoding and of the
anchor sink.  A write that raises has written nothing. -/
structure AppendFaults where
  signing : Option PyError := none
  opening : Option PyError := none
  writing : Option PyError := none
  signingCheckpoint : Option PyError := none

namespace FileLedger

variable {P : Primitives}

/-- Write the line of a record, where there is a file.  A record that was hashed can also be
written as JSON. -/
def writeLine (faults : AppendFaults) (record : AuditRecord) (l : FileLedger) :
    Except PyError Unit × FileLedger :=
  if l.path then
    match faults.opening.or faults.writing with
    | some err => (.error err, l)
    | none => (.ok (), { l with lines := l.lines ++ [fileRecord record] })
  else (.ok (), l)

/-- `_emit_checkpoint`, for the head of the records. -/
def emitCheckpointUnder (faults : AppendFaults) (settings : LedgerSettings) (keys : KeyPair P)
    (head : AuditRecord) (l : FileLedger) : Except PyError Unit × FileLedger :=
  let count := l.ledger.records.length
  match canonicalBytes (Checkpoint.signingDict head.sequence head.recordHash count) with
  | .error err => (.error err, l)
  | .ok payload =>
      match faults.signingCheckpoint with
      | some err => (.error err, l)
      | none =>
          let checkpoint : Checkpoint := ⟨head.sequence, head.recordHash, count, keys.sign payload⟩
          match settings.anchorSink with
          | none => (.ok (), l)
          | some sink => (sink checkpoint, { l with anchored := l.anchored ++ [checkpoint] })

/-- The record in the list, where it is before its line is written. -/
def keep (record : AuditRecord) (l : FileLedger) : FileLedger :=
  { l with
    ledger := ⟨l.ledger.records ++ [record]⟩
    appended := l.appended ++ [record] }

/-- `append` makes a checkpoint after this record. -/
def CheckpointDue (settings : LedgerSettings) (record : AuditRecord) : Prop :=
  settings.checkpointEvery ≠ 0 ∧ ((record.sequence : Int) + 1) % settings.checkpointEvery = 0

instance (settings : LedgerSettings) (record : AuditRecord) :
    Decidable (CheckpointDue settings record) := inferInstanceAs (Decidable (_ ∧ _))

/-- `append`, meeting these exceptions. -/
def appendUnder (faults : AppendFaults) (settings : LedgerSettings) (keys : KeyPair P)
    (e : LedgerEntry) (l : FileLedger) : Except PyError AuditRecord × FileLedger :=
  match sealRecord keys e l.ledger.records.length
      (l.ledger.records.getLast?.bind AuditRecord.recordHash) with
  | .error err => (.error err, l)
  | .ok record =>
      match faults.signing with
      | some err => (.error err, l)
      | none =>
          match writeLine faults record (l.keep record) with
          | (.error err, l) => (.error err, l)
          | (.ok _, l) =>
              if CheckpointDue settings record then
                match emitCheckpointUnder faults settings keys record l with
                | (.error err, l) => (.error err, l)
                | (.ok _, l) => (.ok record, l)
              else (.ok record, l)

variable {faults : AppendFaults} {settings : LedgerSettings} {keys : KeyPair P} {e : LedgerEntry}
variable {l l' : FileLedger} {r : AuditRecord}

/-- Where nothing goes wrong the call is `append`. -/
theorem appendUnder_none : l.appendUnder {} settings keys e = l.append settings keys e := by
  unfold appendUnder append AuditLedger.append
  cases sealRecord keys e l.ledger.records.length
      (l.ledger.records.getLast?.bind AuditRecord.recordHash) with
  | error err => rfl
  | ok record =>
    have hwrite : writeLine {} record (l.keep record) = (.ok (), { l.keep record with
        lines := if l.path then l.lines ++ [fileRecord record] else l.lines }) := by
      by_cases hpath : l.path = true
      · simp [writeLine, keep, hpath]
      · simp [writeLine, keep, hpath]
    simp only [hwrite]
    rfl

/-! ### What it leaves -/

/-- The records and the file are the same. -/
def Unchanged (l l' : FileLedger) : Prop :=
  l'.ledger.records = l.ledger.records ∧ l'.lines = l.lines

/-- The record is in the list, and its line in the file if there is one and it could be
written. -/
structure Adds (faults : AppendFaults) (r : AuditRecord) (l l' : FileLedger) : Prop where
  path : l'.path = l.path
  records : l'.ledger.records = l.ledger.records ++ [r]
  lines : l'.lines =
    if l.path = true ∧ faults.opening.or faults.writing = none then l.lines ++ [fileRecord r]
    else l.lines

/-- A checkpoint is not in the records or the file. -/
theorem emitCheckpointUnder_frame (faults : AppendFaults) (settings : LedgerSettings)
    (keys : KeyPair P) (r : AuditRecord) (l : FileLedger) :
    (emitCheckpointUnder faults settings keys r l).2.path = l.path ∧
      (emitCheckpointUnder faults settings keys r l).2.ledger = l.ledger ∧
      (emitCheckpointUnder faults settings keys r l).2.lines = l.lines := by
  unfold emitCheckpointUnder
  dsimp only
  split
  · exact ⟨rfl, rfl, rfl⟩
  · split
    · exact ⟨rfl, rfl, rfl⟩
    · split <;> exact ⟨rfl, rfl, rfl⟩

/-- With the record in the list, the line is what is left to add. -/
theorem adds_writeLine (faults : AppendFaults) (r : AuditRecord) (l : FileLedger) :
    Adds faults r l (writeLine faults r (l.keep r)).2 := by
  unfold writeLine keep
  by_cases hpath : l.path = true
  · cases hfault : faults.opening.or faults.writing with
    | some err => exact ⟨by simp [hpath], by simp [hpath], by simp [hpath, hfault]⟩
    | none => exact ⟨by simp [hpath], by simp [hpath], by simp [hpath, hfault]⟩
  · exact ⟨by simp [hpath], by simp [hpath], by simp [hpath]⟩

/-! ### When it raises -/

/-- The exception comes before the record is kept: from its encoding or its signature. -/
def FailsEarly (faults : AppendFaults) (e : LedgerEntry) : Prop :=
  ¬ e.payload.Encodable ∨ faults.signing.isSome = true

/-- The checkpoint for this head cannot be signed, or the sink does not take it. -/
def AnchoringRaises (faults : AppendFaults) (settings : LedgerSettings) (keys : KeyPair P)
    (head : AuditRecord) (count : Nat) : Prop :=
  faults.signingCheckpoint.isSome = true ∨ ∃ payload sink err,
    canonicalBytes (Checkpoint.signingDict head.sequence head.recordHash count) = .ok payload ∧
      settings.anchorSink = some sink ∧
      sink ⟨head.sequence, head.recordHash, count, keys.sign payload⟩ = .error err

/-- The exception comes after: from the file, or from the checkpoint that is due. -/
def FailsLate (faults : AppendFaults) (settings : LedgerSettings) (keys : KeyPair P)
    (e : LedgerEntry) (l : FileLedger) : Prop :=
  (l.path = true ∧ (faults.opening.or faults.writing).isSome = true) ∨
    ∃ r, sealRecord keys e l.ledger.records.length
        (l.ledger.records.getLast?.bind AuditRecord.recordHash) = .ok r ∧
      CheckpointDue settings r ∧
      AnchoringRaises faults settings keys r (l.ledger.records.length + 1)

/-- A call fails late neither with a file that can be written nor with a sink that takes
every checkpoint. -/
theorem not_failsLate (hfile : faults.opening.or faults.writing = none)
    (hsigning : faults.signingCheckpoint = none)
    (hsink : ∀ sink ∈ settings.anchorSink, ∀ c, sink c = .ok ()) :
    ¬ FailsLate faults settings keys e l := by
  rintro (⟨_, hfails⟩ | ⟨_, _, _, hfails | ⟨_, sink, err, _, hsettings, herr⟩⟩)
  · rw [hfile] at hfails
    cases hfails
  · rw [hsigning] at hfails
    cases hfails
  · rw [hsink sink hsettings] at herr
    cases herr

theorem encodable_signingDict (sequence : Nat) (headHash : Option String) (count : Nat) :
    (Checkpoint.signingDict sequence headHash count).Encodable := by
  cases headHash <;> exact ⟨rfl, rfl⟩

theorem writeLine_eq_ok_iff :
    (writeLine faults r l).1 = .ok () ↔
      ¬ (l.path = true ∧ (faults.opening.or faults.writing).isSome = true) := by
  unfold writeLine
  by_cases hpath : l.path = true
  · cases hfault : faults.opening.or faults.writing <;> simp [hpath]
  · simp [hpath]

variable (faults settings keys l r) in
theorem emitCheckpointUnder_eq_ok_iff :
    (emitCheckpointUnder faults settings keys r l).1 = .ok () ↔
      ¬ AnchoringRaises faults settings keys r l.ledger.records.length := by
  unfold emitCheckpointUnder AnchoringRaises
  dsimp only
  rw [(encodable_signingDict _ _ _).canonicalBytes_eq]
  cases faults.signingCheckpoint with
  | some err => simp
  | none =>
    cases settings.anchorSink with
    | none => simp
    | some sink =>
      constructor
      · rintro hok (hsome | ⟨payload, sink', err, hpayload, hsink, herr⟩)
        · cases hsome
        · cases hpayload
          cases hsink
          dsimp only at hok
          rw [herr] at hok
          cases hok
      · intro hnot
        dsimp only
        cases hanswer : sink ⟨r.sequence, r.recordHash, l.ledger.records.length, keys.sign _⟩ with
        | ok _ => rfl
        | error err => exact absurd (Or.inr ⟨_, sink, err, rfl, rfl, hanswer⟩) hnot

/-- A call that does not fail early has made the record. -/
theorem exists_kept (l : FileLedger) (keys : KeyPair P) (h : ¬ FailsEarly faults e) :
    ∃ r, sealRecord keys e l.ledger.records.length
        (l.ledger.records.getLast?.bind AuditRecord.recordHash) = .ok r ∧
      faults.signing = none := by
  obtain ⟨hencodable, hsigning⟩ := not_or.mp h
  obtain ⟨r, hseal⟩ := exists_sealRecord_iff.mpr (not_not.mp hencodable)
  refine ⟨r, hseal, ?_⟩
  cases hfault : faults.signing with
  | none => rfl
  | some err => exact absurd (congrArg Option.isSome hfault) hsigning

variable (settings keys l) in
/-- A call that fails early has done nothing. -/
theorem appendUnder_of_failsEarly (h : FailsEarly faults e) :
    ∃ err, l.appendUnder faults settings keys e = (.error err, l) := by
  unfold appendUnder
  cases hseal : sealRecord keys e l.ledger.records.length
      (l.ledger.records.getLast?.bind AuditRecord.recordHash) with
  | error err => exact ⟨err, rfl⟩
  | ok r =>
    rcases h with hencodable | hsigning
    · exact absurd (exists_sealRecord_iff.mp ⟨r, hseal⟩) hencodable
    · obtain ⟨err, hfault⟩ := Option.isSome_iff_exists.mp hsigning
      exact ⟨err, by simp only [hfault]⟩

section kept

variable (hseal : sealRecord keys e l.ledger.records.length
  (l.ledger.records.getLast?.bind AuditRecord.recordHash) = .ok r)
  (hsigning : faults.signing = none)
include hseal

variable (faults settings) in
theorem failsLate_iff :
    FailsLate faults settings keys e l ↔
      ¬ (writeLine faults r (l.keep r)).1 = .ok () ∨
        CheckpointDue settings r ∧
          AnchoringRaises faults settings keys r (l.keep r).ledger.records.length := by
  have hlength : (l.keep r).ledger.records.length = l.ledger.records.length + 1 :=
    List.length_append
  rw [writeLine_eq_ok_iff, not_not, hlength, FailsLate]
  refine or_congr_right ⟨?_, fun hdue => ⟨r, hseal, hdue⟩⟩
  rintro ⟨r', hseal', hdue⟩
  rw [hseal] at hseal'
  cases hseal'
  exact hdue

include hsigning

theorem appendUnder_eq :
    l.appendUnder faults settings keys e =
      match writeLine faults r (l.keep r) with
      | (.error err, l) => (.error err, l)
      | (.ok _, l) =>
          if CheckpointDue settings r then
            match emitCheckpointUnder faults settings keys r l with
            | (.error err, l) => (.error err, l)
            | (.ok _, l) => (.ok r, l)
          else (.ok r, l) := by
  unfold appendUnder
  simp only [hseal, hsigning]

/-- A call that keeps the record raises exactly if it fails late. -/
theorem appendUnder_kept_raises_iff :
    (∃ err, (l.appendUnder faults settings keys e).1 = .error err) ↔
      FailsLate faults settings keys e l := by
  rw [appendUnder_eq hseal hsigning, failsLate_iff faults settings hseal]
  have hrecords := (adds_writeLine faults r l).records
  generalize writeLine faults r (l.keep r) = write at hrecords
  obtain ⟨written?, written⟩ := write
  cases written? with
  | error err => simp
  | ok _ =>
    have hlength : (l.keep r).ledger.records.length = written.ledger.records.length :=
      congrArg List.length hrecords.symm
    rw [hlength]
    by_cases hdue : CheckpointDue settings r
    · have hanchor := emitCheckpointUnder_eq_ok_iff faults settings keys written r
      simp only [if_pos hdue]
      generalize emitCheckpointUnder faults settings keys r written = emit at hanchor
      obtain ⟨emitted?, emitted⟩ := emit
      cases emitted? with
      | error err => simpa [hdue] using hanchor
      | ok _ => simpa [hdue] using hanchor
    · simp [hdue]

variable (settings) in
/-- It has added the record, whatever it answers. -/
theorem adds_appendUnder : Adds faults r l (l.appendUnder faults settings keys e).2 := by
  rw [appendUnder_eq hseal hsigning]
  have hwritten := adds_writeLine faults r l
  generalize writeLine faults r (l.keep r) = write at hwritten
  obtain ⟨written?, written⟩ := write
  cases written? with
  | error err => exact hwritten
  | ok _ =>
    dsimp only at hwritten ⊢
    split
    · obtain ⟨hpath, hledger, hlines⟩ := emitCheckpointUnder_frame faults settings keys r written
      have hadds : Adds faults r l (emitCheckpointUnder faults settings keys r written).2 :=
        ⟨hpath.trans hwritten.path, hledger ▸ hwritten.records, hlines.trans hwritten.lines⟩
      generalize emitCheckpointUnder faults settings keys r written = emit at hadds
      obtain ⟨emitted?, emitted⟩ := emit
      cases emitted? <;> exact hadds
    · exact hwritten

/-- If it returns, it has met no exception. -/
theorem appendUnder_of_not_failsLate (h : ¬ FailsLate faults settings keys e l) :
    l.appendUnder faults settings keys e = l.append settings keys e := by
  rw [← appendUnder_none, appendUnder_eq hseal hsigning, appendUnder_eq hseal rfl]
  obtain ⟨hwrite, hanchor⟩ := not_or.mp ((failsLate_iff faults settings hseal).not.mp h)
  have hsame : writeLine faults r (l.keep r) = writeLine {} r (l.keep r) := by
    have hfault := writeLine_eq_ok_iff.mp (not_not.mp hwrite)
    unfold writeLine
    by_cases hpath : (l.keep r).path = true
    · have hnone : faults.opening.or faults.writing = none := by
        cases hraises : faults.opening.or faults.writing with
        | none => rfl
        | some err => exact absurd ⟨hpath, congrArg Option.isSome hraises⟩ hfault
      rw [hnone]
      rfl
    · rw [if_neg hpath, if_neg hpath]
  rw [hsame]
  by_cases hdue : CheckpointDue settings r
  · have hsigned : faults.signingCheckpoint = none := by
      cases hraises : faults.signingCheckpoint with
      | none => rfl
      | some err => exact absurd ⟨hdue, Or.inl (congrArg Option.isSome hraises)⟩ hanchor
    have hemit (written : FileLedger) : emitCheckpointUnder faults settings keys r written =
        emitCheckpointUnder {} settings keys r written := by
      unfold emitCheckpointUnder
      rw [hsigned]
    simp only [hemit]
  · simp only [if_neg hdue]

end kept

variable (faults settings keys e l) in
/-- When a call raises. -/
theorem raises_iff :
    (∃ err, (l.appendUnder faults settings keys e).1 = .error err) ↔
      FailsEarly faults e ∨ FailsLate faults settings keys e l := by
  by_cases hearly : FailsEarly faults e
  · obtain ⟨err, hcall⟩ := appendUnder_of_failsEarly settings keys l hearly
    exact ⟨fun _ => Or.inl hearly, fun _ => ⟨err, congrArg Prod.fst hcall⟩⟩
  · obtain ⟨r, hseal, hsigning⟩ := exists_kept l keys hearly
    rw [appendUnder_kept_raises_iff hseal hsigning]
    exact ⟨Or.inr, fun h => h.resolve_left hearly⟩

/-- A call leaves the records and the file exactly if it fails early. -/
theorem unchanged_appendUnder_iff :
    Unchanged l (l.appendUnder faults settings keys e).2 ↔ FailsEarly faults e := by
  constructor
  · rintro ⟨hrecords, _⟩
    by_contra hearly
    obtain ⟨r, hseal, hsigning⟩ := exists_kept l keys hearly
    have hadded := (adds_appendUnder settings hseal hsigning).records
    have hlength := congrArg List.length (hadded.symm.trans hrecords)
    simp at hlength
  · intro hearly
    obtain ⟨err, hcall⟩ := appendUnder_of_failsEarly settings keys l hearly
    rw [hcall]
    exact ⟨rfl, rfl⟩

/-- In the process the chain goes on whatever fails, so only a restart shows what is lost. -/
theorem verify_appendUnder (h : l.verify keys = .ok true) :
    (l.appendUnder faults settings keys e).2.verify keys = .ok true := by
  by_cases hearly : FailsEarly faults e
  · obtain ⟨err, hcall⟩ := appendUnder_of_failsEarly settings keys l hearly
    rw [hcall]
    exact h
  · obtain ⟨r, hseal, hsigning⟩ := exists_kept l keys hearly
    have hvalid := verifyRecords_eq_true_iff.mp h
    have hlast := @lastHash_eq P keys l.ledger.records
    rw [verify, (adds_appendUnder settings hseal hsigning).records]
    rw [← hlast] at hseal
    exact verifyRecords_eq_true_iff.mpr ((sealRecord_ok hseal).valid_concat hvalid)

/-! ## Runs -/

/-- A ledger with a file after calls and reloads in which every call that raised did so
early, and every record that was made has a text-ordered payload. -/
inductive SafeRun (keys : KeyPair P) : FileLedger → Prop where
  | new : SafeRun keys { path := true }
  | append {l : FileLedger} (h : SafeRun keys l) (faults : AppendFaults)
      (settings : LedgerSettings) (e : LedgerEntry) (hpayload : wellFormed e.payload = true)
      (hearly : FailsLate faults settings keys e l → FailsEarly faults e)
      (hordered : ¬ FailsEarly faults e → textOrdered e.payload = true) :
      SafeRun keys (l.appendUnder faults settings keys e).2
  | reload {l : FileLedger} (h : SafeRun keys l) : SafeRun keys l.reload

/-- Such a run is one of calls that returned. -/
theorem SafeRun.reachable (h : SafeRun keys l) :
    Reachable keys true l ∧ ∀ s ∈ l.appended, textOrdered s.payload = true := by
  induction h with
  | new => exact ⟨.new, by simp⟩
  | @append l _ faults settings e hpayload hearly hordered ih =>
    by_cases hfails : FailsEarly faults e
    · obtain ⟨err, hcall⟩ := appendUnder_of_failsEarly settings keys l hfails
      rw [hcall]
      exact ih
    · obtain ⟨r, hseal, hsigning⟩ := exists_kept l keys hfails
      rw [appendUnder_of_not_failsLate hseal hsigning fun hlate => hfails (hearly hlate)]
      refine ⟨.append ih.1 settings e hpayload, ?_⟩
      rcases append_cases ih.1.consistent.1 settings e with
        hsame | ⟨r', hseal', _, _, _, happended, _⟩
      · rw [hsame]
        exact ih.2
      · rw [happended]
        intro s hs
        rcases List.mem_append.mp hs with hs | hs
        · exact ih.2 s hs
        · rw [List.mem_singleton.mp hs, (sealRecord_ok hseal').payload]
          exact hordered hfails
  | reload _ ih => exact ⟨.reload ih.1 rfl, ih.2⟩

/-- It verifies, in the process and after a restart. -/
theorem SafeRun.verifies (h : SafeRun keys l) :
    l.verify keys = .ok true ∧ l.reload.verify keys = .ok true := by
  obtain ⟨hreachable, hordered⟩ := h.reachable
  have verifies {l : FileLedger} (hl : Reachable keys true l)
      (hordered : ∀ s ∈ l.appended, textOrdered s.payload = true) :
      l.verify keys = .ok true :=
    verify_of_textOrdered readsAsColumn_fileValue hl.consistent.1.history
      hl.consistent.1.records fun s ⟨_, _, hs⟩ => hordered s (List.mem_of_getElem? hs)
  exact ⟨verifies hreachable hordered, verifies (.reload hreachable rfl) hordered⟩

/-! ### A line that was lost -/

/-- One more call, or a restart. -/
inductive Step (keys : KeyPair P) : FileLedger → FileLedger → Prop where
  | append {l : FileLedger} (faults : AppendFaults) (settings : LedgerSettings) (e : LedgerEntry) :
      Step keys l (l.appendUnder faults settings keys e).2
  | reload {l : FileLedger} : Step keys l l.reload

/-- The file only grows. -/
theorem Step.lines (h : Step keys l l') : l.lines <+: l'.lines := by
  cases h with
  | append faults settings e =>
    by_cases hearly : FailsEarly faults e
    · have hsame : (l.appendUnder faults settings keys e).2.lines = l.lines :=
        (unchanged_appendUnder_iff.mpr hearly).2
      exact hsame.symm ▸ List.prefix_rfl
    · obtain ⟨r, hseal, hsigning⟩ := exists_kept l keys hearly
      rw [(adds_appendUnder settings hseal hsigning).lines]
      split
      · exact List.prefix_append _ _
      · exact List.prefix_rfl
  | reload => exact List.prefix_rfl

theorem lines_grow (h : Relation.ReflTransGen (Step keys) l l') : l.lines <+: l'.lines := by
  induction h with
  | refl => exact List.prefix_rfl
  | tail _ hstep ih => exact ih.trans hstep.lines

/-- Where a line is missing, the next record in the file stands at the wrong place, and no
restart verifies the file from then on. -/
theorem lost_line_breaks_chain (hpath : l.path = true)
    (hlost : l.lines.length < l.ledger.records.length)
    (hcall : (l.appendUnder faults settings keys e).1 = .ok r)
    (hlater : Relation.ReflTransGen (Step keys) (l.appendUnder faults settings keys e).2 l') :
    l'.reload.verify keys ≠ .ok true := by
  intro hverify
  have hreturns : ¬ (FailsEarly faults e ∨ FailsLate faults settings keys e l) := by
    rw [← raises_iff faults settings keys e l, hcall]
    rintro ⟨err, herr⟩
    cases herr
  obtain ⟨hearly, hlate⟩ := not_or.mp hreturns
  obtain ⟨r', hseal, hsigning⟩ := exists_kept l keys hearly
  have hwritten : faults.opening.or faults.writing = none := by
    cases hraises : faults.opening.or faults.writing with
    | none => rfl
    | some err => exact absurd (Or.inl ⟨hpath, congrArg Option.isSome hraises⟩) hlate
  have hlines := (adds_appendUnder settings hseal hsigning).lines
  rw [if_pos ⟨hpath, hwritten⟩] at hlines
  have hlast : l'.lines[l.lines.length]? = some (fileRecord r') := by
    have hlength : l.lines.length < (l.appendUnder faults settings keys e).2.lines.length := by
      rw [hlines, List.length_append]
      exact Nat.lt_succ_self _
    rw [List.prefix_iff_getElem?.mp (lines_grow hlater) _ hlength]
    simp [hlines]
  -- the loop of `verify` wants the place of the line as the number of the record
  have hplace : r'.sequence = 0 + l.lines.length :=
    ((verifyRecords_eq_true_iff.mp hverify).getElem? hlast).1
  rw [(sealRecord_ok hseal).sequence] at hplace
  omega

end FileLedger

/-- A failed append leaves no trace exactly if it fails early, and where no append fails late
the ledger verifies after every call, in the process and after a restart. -/
theorem failed_append_leaves_no_trace_iff {P : Primitives} {keys : KeyPair P} :
    (∀ faults settings e (l : FileLedger),
      ((∃ err, (l.appendUnder faults settings keys e).1 = .error err) →
          l.Unchanged (l.appendUnder faults settings keys e).2) ↔
        (FileLedger.FailsLate faults settings keys e l → FileLedger.FailsEarly faults e)) ∧
    ∀ l, FileLedger.SafeRun keys l →
      l.verify keys = .ok true ∧ l.reload.verify keys = .ok true := by
  refine ⟨fun faults settings e l => ?_, fun l hl => hl.verifies⟩
  rw [FileLedger.raises_iff, FileLedger.unchanged_appendUnder_iff]
  exact ⟨fun h hlate => h (Or.inr hlate), fun h hraises => hraises.elim id h⟩

/-- An entry that has no canonical text. -/
def nanEntry : LedgerEntry := { demoEntry with payload := .dict [("x", .float (.nan 0))] }

/-- A record is appended, an append fails early, and after a restart a second record is
appended and anchored. -/
def safeLedger : FileLedger :=
  (FileLedger.appendUnder {} demoSettings demoKeys nestedEntry (FileLedger.reload
    (FileLedger.appendUnder { writing := some .osError } demoSettings demoKeys nanEntry
      (FileLedger.appendUnder {} demoSettings demoKeys demoEntry { path := true }).2).2)).2

theorem safeLedger_safeRun : FileLedger.SafeRun demoKeys safeLedger := by
  have hsink : ∀ sink ∈ demoSettings.anchorSink, ∀ c, sink c = .ok () := by
    intro sink hsink c
    cases hsink
    rfl
  have hearly : FileLedger.FailsEarly { writing := some .osError } nanEntry :=
    Or.inl fun h => by cases h.serializable
  refine .append (.reload (.append (.append .new {} demoSettings demoEntry (by decide) ?_ ?_)
    _ demoSettings nanEntry (by decide) (fun _ => hearly) (absurd hearly))) {} demoSettings
    nestedEntry (by decide) ?_ ?_
  · exact fun hlate => absurd hlate (FileLedger.not_failsLate rfl rfl hsink)
  · exact fun _ => by decide
  · exact fun hlate => absurd hlate (FileLedger.not_failsLate rfl rfl hsink)
  · exact fun _ => by decide

theorem failed_append_leaves_no_trace_iff_demo :
    (safeLedger.appended.map AuditRecord.sequence = [0, 1] ∧ safeLedger.anchored.length = 1) ∧
      safeLedger.verify demoKeys = .ok true ∧ safeLedger.reload.verify demoKeys = .ok true :=
  ⟨by decide +kernel, failed_append_leaves_no_trace_iff.2 safeLedger safeLedger_safeRun⟩

/-! ### A write that fails -/

/-- The ledger whose first line could not be written. -/
def lostLine : FileLedger :=
  (FileLedger.appendUnder { writing := some .osError } {} demoKeys demoEntry { path := true }).2

/-- The sink of these settings takes no checkpoint. -/
def failingSink : LedgerSettings where
  checkpointEvery := 1
  anchorSink := some fun _ => .error .osError

/-- The call raises, the record stays, and after the next call the ledger verifies in the
process but not after a restart.  A sink that raises leaves the record in the file too. -/
theorem failed_append_leaves_trace :
    (FileLedger.appendUnder { writing := some .osError } {} demoKeys demoEntry
        { path := true }).1 = .error .osError ∧
      lostLine.ledger.records.length = 1 ∧ lostLine.lines.length = 0 ∧
      (lostLine.append {} demoKeys demoEntry).2.lines.length = 1 ∧
      (lostLine.append {} demoKeys demoEntry).2.verify demoKeys = .ok true ∧
      (lostLine.append {} demoKeys demoEntry).2.reload.verify demoKeys = .ok false ∧
    (FileLedger.append failingSink demoKeys demoEntry { path := true }).1 = .error .osError ∧
      (FileLedger.append failingSink demoKeys demoEntry { path := true }).2.lines.length = 1 := by
  have hprocess : (lostLine.append {} demoKeys demoEntry).2.verify demoKeys = .ok true := by
    rw [← FileLedger.appendUnder_none]
    exact FileLedger.verify_appendUnder (FileLedger.verify_appendUnder rfl)
  refine ⟨rfl, ?_, ?_, ?_, hprocess, ?_, rfl, ?_⟩ <;> decide +kernel

end EarnedAutonomy
