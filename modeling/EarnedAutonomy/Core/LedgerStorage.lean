import EarnedAutonomy.Core.LedgerChain

/-!
# What storage leaves of the chain

A record is hashed over the payload of the caller and verified over the payload
that storage gives back.  The other columns come back as they were written, so
`verify` depends on storage only through the canonical text of the payload, and
`canon_jsonColumn_iff` says when that is kept.

* `storage_preserves_iff`: a chain read back hashes as it was appended, and
  verifies, exactly if every payload is text-ordered.
* `truncation_detected_iff`: `verify` of a shortened chain answers as for the
  whole one.  It is `False` only where storage had changed a hash before.
-/

namespace EarnedAutonomy

open HashChain

/-! ## One record -/

/-- What reading from storage does to a payload. -/
structure ReadsAsColumn (read : PyVal → PyVal) : Prop where
  storable : ∀ {v : PyVal}, v.Storable → (read v).Storable
  canon : ∀ {v : PyVal}, v.Storable → canon (read v) = canon (jsonColumn v)

theorem readsAsColumn_jsonColumn : ReadsAsColumn jsonColumn := ⟨storable_jsonColumn, fun _ => rfl⟩

theorem readsAsColumn_fileValue : ReadsAsColumn fileValue := ⟨storable_fileValue, canon_fileValue⟩

/-- The record after its payload was read back. -/
def AuditRecord.readBack (read : PyVal → PyVal) (r : AuditRecord) : AuditRecord :=
  { r with payload := read r.payload }

theorem SqlAuditLedger.records_eq (l : SqlAuditLedger) :
    l.records = l.rows.map (AuditRecord.readBack jsonColumn) := rfl

section

variable {P : Primitives} {keys : KeyPair P} {read : PyVal → PyVal} {r s : AuditRecord}
  {history records : List AuditRecord}

/-- The canonical text of a record depends on that of its payload. -/
theorem canon_hashedDict_readBack (h : canon (read r.payload) = canon r.payload) :
    canon (r.readBack read).hashedDict = canon r.hashedDict := by
  rw [AuditRecord.hashedDict_eq, AuditRecord.hashedDict_eq, canon, canon,
    canonEntries_eq_map, canonEntries_eq_map]
  simp only [AuditRecord.hashedEntries, AuditRecord.readBack, List.map_cons, List.map_nil, h]

/-- Storage keeps the hashed bytes of a record exactly if the payload is
text-ordered. -/
theorem canonicalBytes_readBack_iff (hread : ReadsAsColumn read) (h : r.payload.Storable) :
    canonicalBytes (r.readBack read).hashedDict = canonicalBytes r.hashedDict ↔
      textOrdered r.payload = true := by
  have hbefore : r.hashedDict.Encodable := AuditRecord.encodable_hashedDict.mpr h.toEncodable
  have hafter : (r.readBack read).hashedDict.Encodable :=
    AuditRecord.encodable_hashedDict.mpr (hread.storable h).toEncodable
  rw [← canon_jsonColumn_iff h, ← hread.canon h]
  constructor
  · intro hbytes
    have hsame := AuditRecord.sameContent_of_canonicalBytes (hbytes.trans hbefore.canonicalBytes_eq)
      hbefore.canonicalBytes_eq
    have hpayload : canonicalBytes (read r.payload) = canonicalBytes r.payload := hsame.payload
    exact canon_eq_of_canonicalBytes (hpayload.trans h.canonicalBytes_eq) h.canonicalBytes_eq
  · intro hcanon
    rw [hafter.canonicalBytes_eq, hbefore.canonicalBytes_eq, canon_hashedDict_readBack hcanon]

/-! ## A chain -/

/-- The record is the appended one, or that after it was read back. -/
def KeptBy (read : PyVal → PyVal) (r s : AuditRecord) : Prop := r = s ∨ r = s.readBack read

/-- `verify` reads these columns, which storage keeps, and hashes the rest. -/
structure SameColumns (P : Primitives) (r s : AuditRecord) : Prop where
  sequence : r.sequence = s.sequence
  previousHash : r.previousHash = s.previousHash
  recordHash : r.recordHash = s.recordHash
  signature : r.signature = s.signature
  hash : hashRecord P r = hashRecord P s

theorem verifyFrom_congr {i : Nat} {previous : Option String}
    (h : List.Forall₂ (SameColumns P) records history) :
    verifyFrom keys i previous records = verifyFrom keys i previous history := by
  induction h generalizing i previous with
  | nil => rfl
  | cons hrs _ ih =>
    rw [verifyFrom, verifyFrom, hrs.sequence, hrs.previousHash, hrs.hash, hrs.recordHash,
      hrs.signature]
    simp only [ih]

/-- `verify` returns if every payload can be encoded. -/
theorem verifyFrom_returns {i : Nat} {previous : Option String}
    (h : ∀ r ∈ records, r.payload.Encodable) :
    ∃ b, verifyFrom keys i previous records = .ok b := by
  induction records generalizing i previous with
  | nil => exact ⟨true, rfl⟩
  | cons r rest ih =>
    have hdict := AuditRecord.encodable_hashedDict.mpr (h r List.mem_cons_self)
    have hhash := hashRecord_eq_ok_iff (P := P).mpr ⟨_, hdict.canonicalBytes_eq, rfl⟩
    have hrest : ∀ s ∈ rest, s.payload.Encodable := fun s hs => h s (List.mem_cons_of_mem r hs)
    obtain ⟨b, hb⟩ : ∃ b, verifyFrom keys (i + 1) r.recordHash rest = .ok b := ih hrest
    rw [verifyFrom, hhash]
    simp only [bind, Except.bind, pure, Except.pure]
    split_ifs
    · exact ⟨false, rfl⟩
    · exact ⟨false, rfl⟩
    · exact ⟨false, rfl⟩
    · exact ⟨false, rfl⟩
    · exact ⟨b, hb⟩

theorem KeptBy.sameColumns (hread : ReadsAsColumn read) (hkept : KeptBy read r s)
    (hstorable : s.payload.Storable)
    (hordered : r = s.readBack read → textOrdered s.payload = true) : SameColumns P r s := by
  rcases hkept with rfl | rfl
  · exact ⟨rfl, rfl, rfl, rfl, rfl⟩
  · have hbytes := (canonicalBytes_readBack_iff hread hstorable).mpr (hordered rfl)
    refine ⟨rfl, rfl, rfl, rfl, ?_⟩
    rw [hashRecord_eq, hashRecord_eq, hbytes]

theorem KeptBy.encodable (hread : ReadsAsColumn read) (hkept : KeptBy read r s)
    (hstorable : s.payload.Storable) : r.payload.Encodable := by
  rcases hkept with rfl | rfl
  · exact hstorable.toEncodable
  · exact (hread.storable hstorable).toEncodable

/-- The two lists have these records at one place. -/
def At (records history : List AuditRecord) (r s : AuditRecord) : Prop :=
  ∃ i : Nat, records[i]? = some r ∧ history[i]? = some s

theorem at_iff_mem_zip : At records history r s ↔ (r, s) ∈ records.zip history := by
  rw [List.mem_iff_getElem?]
  simp only [List.getElem?_zip_eq_some, At]

theorem History.sealed (h : History keys history) (hs : s ∈ history) :
    (auditChain keys).Sealed s := by
  obtain ⟨i, hi⟩ := List.mem_iff_getElem?.mp hs
  exact (h.valid.getElem? hi).2

/-- A chain verifies if what was read back of it is text-ordered. -/
theorem verify_of_textOrdered (hread : ReadsAsColumn read) (hhistory : History keys history)
    (hkept : List.Forall₂ (KeptBy read) records history)
    (hordered : ∀ s, At records history (s.readBack read) s → textOrdered s.payload = true) :
    verifyRecords keys records = .ok true := by
  have hsame : List.Forall₂ (SameColumns P) records history := by
    refine List.forall₂_iff_zip.mpr ⟨hkept.length_eq, fun {r s} hzip => ?_⟩
    have hmem := List.of_mem_zip hzip
    refine ((List.forall₂_iff_zip.mp hkept).2 hzip).sameColumns hread
      (hhistory.storable s hmem.2) fun heq => ?_
    rw [heq] at hzip
    exact hordered s (at_iff_mem_zip.mpr hzip)
  have hverify : verifyRecords keys records = verifyRecords keys history := verifyFrom_congr hsame
  rw [hverify]
  exact verifyRecords_eq_true_iff.mpr hhistory.valid

/-- A chain that was kept or read back verifies exactly if what was read back is
text-ordered. -/
theorem verify_kept_iff (hread : ReadsAsColumn read) (hhistory : History keys history)
    (hkept : List.Forall₂ (KeptBy read) records history)
    (hinj : HashInjective keys history records) :
    verifyRecords keys records = .ok true ↔
      ∀ s, At records history (s.readBack read) s → textOrdered s.payload = true := by
  constructor
  · intro hverify s hat
    obtain ⟨i, hr, hs⟩ := hat
    have hvalid := verifyRecords_eq_true_iff.mp hverify
    have hrmem := List.mem_of_getElem? hr
    have hsmem := List.mem_of_getElem? hs
    -- the two records carry one hash, so they were hashed over one text
    obtain ⟨⟨b, hrb, hsb⟩, _⟩ := (hhistory.sealed hsmem).content_eq (hvalid.getElem? hr).2 hsmem
      hrmem hinj rfl
    refine (canonicalBytes_readBack_iff hread (hhistory.storable s hsmem)).mp ?_
    rw [content_eq_some_iff.mp hrb, content_eq_some_iff.mp hsb]
  · exact verify_of_textOrdered hread hhistory hkept

/-- `verify` of such a chain returns. -/
theorem verify_kept_returns (hread : ReadsAsColumn read) (hhistory : History keys history)
    (hkept : List.Forall₂ (KeptBy read) records history) :
    ∃ b, verifyRecords keys records = .ok b := by
  refine verifyFrom_returns fun r hr => ?_
  obtain ⟨i, hi⟩ := List.mem_iff_getElem?.mp hr
  have hlength := (List.getElem?_eq_some_iff.mp hi).1
  have hsi := List.getElem?_eq_getElem (hkept.length_eq ▸ hlength : i < history.length)
  have hzip := at_iff_mem_zip.mp ⟨i, hi, hsi⟩
  exact ((List.forall₂_iff_zip.mp hkept).2 hzip).encodable hread
    (hhistory.storable _ (List.mem_of_getElem? hsi))

theorem History.of_prefix (h : History keys history) (hfront : records <+: history) :
    History keys records :=
  ⟨h.valid.of_prefix hfront, fun r hr => h.storable r (hfront.subset hr)⟩

/-- What `verify` answers for a shortened chain. -/
theorem verify_shortened_iff (hread : ReadsAsColumn read) (hhistory : History keys history)
    {whole : List AuditRecord} (hkept : List.Forall₂ (KeptBy read) whole history)
    (hfront : records <+: whole) (hinj : HashInjective keys history records) :
    verifyRecords keys records = .ok false ↔
      ∃ s, At records history (s.readBack read) s ∧ textOrdered s.payload = false := by
  have hrecords : records = whole.take records.length := List.prefix_iff_eq_take.mp hfront
  have hshort : List.Forall₂ (KeptBy read) records (history.take records.length) := by
    have htake := List.forall₂_take records.length hkept
    rwa [← hrecords] at htake
  have hhistory' := hhistory.of_prefix (List.take_prefix records.length history)
  have hinj' : HashInjective keys (history.take records.length) records :=
    hinj.mono (Set.union_subset_union_left _
      ((auditChain keys).contents_mono (List.take_subset records.length history)))
  have hat (s : AuditRecord) : At records (history.take records.length) (s.readBack read) s ↔
      At records history (s.readBack read) s := by
    unfold At
    constructor
    · rintro ⟨i, hr, hs⟩
      rw [List.getElem?_take_of_lt (List.getElem?_eq_some_iff.mp hr).1] at hs
      exact ⟨i, hr, hs⟩
    · rintro ⟨i, hr, hs⟩
      refine ⟨i, hr, ?_⟩
      rwa [List.getElem?_take_of_lt (List.getElem?_eq_some_iff.mp hr).1]
  have htrue := verify_kept_iff hread hhistory' hshort hinj'
  obtain ⟨b, hb⟩ := verify_kept_returns hread hhistory' hshort
  simp only [hat] at htrue
  rw [hb] at htrue ⊢
  cases b with
  | true =>
    have hordered := htrue.mp rfl
    constructor
    · intro h
      cases h
    · rintro ⟨s, hs, hdrift⟩
      rw [hordered s hs] at hdrift
      cases hdrift
  | false =>
    constructor
    · intro _
      by_contra hnone
      have hall : Except.ok false = (Except.ok true : Except PyError Bool) :=
        htrue.mpr fun s hs => by
        by_contra hdrift
        exact hnone ⟨s, hs, Bool.not_eq_true _ ▸ hdrift⟩
      cases hall
    · intro _
      rfl

/-! ## What is read back -/

/-- The records hash as they did when they were appended, and verify. -/
structure Preserved (keys : KeyPair P) (history records : List AuditRecord) : Prop where
  hash : List.Forall₂ (fun r s => hashRecord P r = hashRecord P s) records history
  verify : verifyRecords keys records = .ok true

theorem forall₂_readBack (read : PyVal → PyVal) (history : List AuditRecord) :
    List.Forall₂ (KeptBy read) (history.map (AuditRecord.readBack read)) history := by
  rw [List.forall₂_map_left_iff]
  exact List.forall₂_same.mpr fun s _ => Or.inr rfl

variable (read) in
theorem at_readBack (hs : s ∈ history) :
    At (history.map (AuditRecord.readBack read)) history (s.readBack read) s := by
  obtain ⟨i, hi⟩ := List.mem_iff_getElem?.mp hs
  refine ⟨i, ?_, hi⟩
  rw [List.getElem?_map, hi]
  rfl

/-- What is read back is preserved exactly if every payload is text-ordered. -/
theorem preserved_iff (hread : ReadsAsColumn read) (hhistory : History keys history)
    (hinj : HashInjective keys history (history.map (AuditRecord.readBack read))) :
    Preserved keys history (history.map (AuditRecord.readBack read)) ↔
      ∀ s ∈ history, textOrdered s.payload = true := by
  have hverify := verify_kept_iff hread hhistory (forall₂_readBack read history) hinj
  constructor
  · intro h s hs
    exact hverify.mp h.verify s (at_readBack _ hs)
  · intro hordered
    refine ⟨?_, hverify.mpr fun s hat => ?_⟩
    · rw [List.forall₂_map_left_iff]
      refine List.forall₂_same.mpr fun s hs => ?_
      rw [hashRecord_eq, hashRecord_eq,
        (canonicalBytes_readBack_iff hread (hhistory.storable s hs)).mpr (hordered s hs)]
    · obtain ⟨i, _, hs⟩ := hat
      exact hordered s (List.mem_of_getElem? hs)

/-- The lines of the file are what the appended records read back as. -/
theorem FileLedger.Reachable.lines_eq {l : FileLedger} (h : FileLedger.Reachable keys true l) :
    l.lines = l.appended.map (AuditRecord.readBack fileValue) :=
  h.consistent.1.lines h.consistent.2

/-- After any appends and reloads, what storage gives back hashes as it was appended
and verifies if and only if every payload is text-ordered. -/
theorem storage_preserves_iff :
    (∀ l, SqlAuditLedger.Reachable keys l → HashInjective keys l.rows l.records →
      (Preserved keys l.rows l.records ↔ ∀ r ∈ l.rows, textOrdered r.payload = true)) ∧
    ∀ l, FileLedger.Reachable keys true l →
      HashInjective keys l.appended l.reload.ledger.records →
      (Preserved keys l.appended l.reload.ledger.records ↔
        ∀ r ∈ l.appended, textOrdered r.payload = true) := by
  constructor
  · intro l hl hinj
    exact preserved_iff readsAsColumn_jsonColumn hl.history hinj
  · intro l hl hinj
    have hlines : l.reload.ledger.records = l.appended.map (AuditRecord.readBack fileValue) :=
      hl.lines_eq
    rw [hlines] at hinj ⊢
    exact preserved_iff readsAsColumn_fileValue hl.consistent.1.history hinj

/-! ### Payloads that drift -/

/-- An entry with integer keys: `2` is before `10`, and `"10"` before `"2"`. -/
def driftEntry : LedgerEntry :=
  { demoEntry with payload := .dict [(.int 2, .text "b"), (.int 10, .text "a")] }

def driftTable : SqlAuditLedger := (SqlAuditLedger.append demoKeys driftEntry {}).2

def driftFile : FileLedger := (FileLedger.append {} demoKeys driftEntry { path := true }).2

/-- The entry is accepted, and the chain does not verify any more. -/
theorem accepted_payload_breaks_chain :
    (SqlAuditLedger.Reachable demoKeys driftTable ∧ driftTable.rows.length = 1 ∧
      ¬ Preserved demoKeys driftTable.rows driftTable.records) ∧
    FileLedger.Reachable demoKeys true driftFile ∧ driftFile.appended.length = 1 ∧
      ¬ Preserved demoKeys driftFile.appended driftFile.reload.ledger.records := by
  have htable : verifyRecords demoKeys driftTable.records = .ok false := by decide +kernel
  have hfile : verifyRecords demoKeys driftFile.reload.ledger.records = .ok false := by
    decide +kernel
  refine ⟨⟨.append .new driftEntry (by decide), by decide +kernel, fun h => ?_⟩,
    .append .new {} driftEntry (by decide), by decide +kernel, fun h => ?_⟩
  · exact absurd (htable.symm.trans h.verify) (by decide)
  · exact absurd (hfile.symm.trans h.verify) (by decide)

/-- Text-ordered payloads hash as they did. -/
theorem contents_readBack (hread : ReadsAsColumn read) (hhistory : History keys history)
    (hordered : ∀ s ∈ history, textOrdered s.payload = true) :
    (auditChain keys).contents (history.map (AuditRecord.readBack read)) ⊆
      (auditChain keys).contents history := by
  rintro k ⟨r, hr, hk⟩
  obtain ⟨s, hs, rfl⟩ := List.mem_map.mp hr
  have hbytes := (canonicalBytes_readBack_iff hread (hhistory.storable s hs)).mpr (hordered s hs)
  exact ⟨s, hs, content_eq_some_iff.mpr (hbytes ▸ content_eq_some_iff.mp hk)⟩

/-- What is read back of records of the demonstration hashes as they do. -/
theorem hashInjective_readBack {records : List AuditRecord} (hread : ReadsAsColumn read)
    (hfront : records ⊆ demoLedger.appended) :
    HashInjective demoKeys demoLedger.appended (records.map (AuditRecord.readBack read)) := by
  have hordered : ∀ s ∈ demoLedger.appended, textOrdered s.payload = true := by decide +kernel
  refine demoRecords_hashInjective demoLedger_subset ?_
  refine Set.Subset.trans ?_ ((auditChain demoKeys).contents_mono demoLedger_subset)
  refine Set.Subset.trans ((auditChain demoKeys).contents_mono (List.map_subset _ hfront)) ?_
  exact contents_readBack hread demoLedger_reachable.consistent.1.history hordered

/-- A table with the records of the ledger. -/
def demoTable : SqlAuditLedger :=
  (SqlAuditLedger.append demoKeys (lastEntry "human") (SqlAuditLedger.append demoKeys nestedEntry
    (SqlAuditLedger.append demoKeys demoEntry {}).2).2).2

theorem demoTable_reachable : SqlAuditLedger.Reachable demoKeys demoTable :=
  .append (.append (.append .new demoEntry (by decide)) nestedEntry (by decide))
    (lastEntry "human") (by decide)

theorem demoTable_rows : demoTable.rows = demoLedger.appended := rfl

theorem storage_preserves_iff_demo :
    (Preserved demoKeys demoTable.rows demoTable.records ↔
      ∀ r ∈ demoTable.rows, textOrdered r.payload = true) ∧
    (Preserved demoKeys demoLedger.appended demoLedger.reload.ledger.records ↔
      ∀ r ∈ demoLedger.appended, textOrdered r.payload = true) := by
  constructor
  · refine (@storage_preserves_iff _ demoKeys).1 demoTable demoTable_reachable ?_
    rw [demoTable_rows]
    exact hashInjective_readBack readsAsColumn_jsonColumn (List.Subset.refl _)
  · refine (@storage_preserves_iff _ demoKeys).2 demoLedger demoLedger_reachable ?_
    have hlines : demoLedger.reload.ledger.records =
        demoLedger.appended.map (AuditRecord.readBack fileValue) := demoLedger_reachable.lines_eq
    rw [hlines]
    exact hashInjective_readBack readsAsColumn_fileValue (List.Subset.refl _)

/-! ## Truncation -/

/-- A shortened chain is rejected if and only if a record that is left was read back
with a payload that is not text-ordered: never for what is missing. -/
theorem truncation_detected_iff :
    (∀ path l, FileLedger.Reachable keys path l → ∀ records, records <+: l.ledger.records →
      HashInjective keys l.appended records →
      ({ l with ledger := ⟨records⟩ }.verify keys = .ok false ↔
        ∃ s, At records l.appended (fileRecord s) s ∧ textOrdered s.payload = false)) ∧
    (∀ l, FileLedger.Reachable keys true l → ∀ lines, lines <+: l.lines →
      HashInjective keys l.appended lines →
      ({ l with lines := lines }.reload.verify keys = .ok false ↔
        ∃ s, At lines l.appended (fileRecord s) s ∧ textOrdered s.payload = false)) ∧
    ∀ l, SqlAuditLedger.Reachable keys l → ∀ rows, rows <+: l.rows →
      HashInjective keys l.rows (SqlAuditLedger.records ⟨rows⟩) →
      (SqlAuditLedger.verify keys ⟨rows⟩ = .ok false ↔
        ∃ s ∈ rows, textOrdered s.payload = false) := by
  refine ⟨?_, ?_, ?_⟩
  · intro path l hl records hfront hinj
    exact verify_shortened_iff readsAsColumn_fileValue hl.consistent.1.history
      hl.consistent.1.records hfront hinj
  · intro l hl lines hfront hinj
    have hkept : List.Forall₂ (KeptBy fileValue) l.lines l.appended := by
      rw [hl.lines_eq]
      exact forall₂_readBack fileValue l.appended
    exact verify_shortened_iff readsAsColumn_fileValue hl.consistent.1.history hkept hfront hinj
  · intro l hl rows hfront hinj
    have hshort := verify_shortened_iff readsAsColumn_jsonColumn hl.history
      (forall₂_readBack jsonColumn l.rows) (hfront.map _) hinj
    rw [SqlAuditLedger.verify, SqlAuditLedger.records_eq, hshort]
    constructor
    · rintro ⟨s, ⟨i, hr, hs⟩, hdrift⟩
      refine ⟨s, ?_, hdrift⟩
      have hlength := (List.getElem?_eq_some_iff.mp hr).1
      rw [List.length_map] at hlength
      rw [List.prefix_iff_getElem?.mp hfront i hlength] at hs
      exact List.mem_of_getElem? ((List.getElem?_eq_getElem hlength).trans hs)
    · rintro ⟨s, hs, hdrift⟩
      obtain ⟨i, hr, hi⟩ := at_readBack jsonColumn hs
      refine ⟨s, ⟨i, hr, ?_⟩, hdrift⟩
      have hlength := (List.getElem?_eq_some_iff.mp hi).1
      rw [List.prefix_iff_getElem?.mp hfront i hlength, ← hi, List.getElem?_eq_getElem hlength]

/-! ### The newest record is gone -/

/-- The records but the newest. -/
def shortened : List AuditRecord := demoLedger.appended.take 2

theorem shortened_lines :
    demoLedger.lines.take 2 = shortened.map (AuditRecord.readBack fileValue) := by
  rw [demoLedger_reachable.lines_eq, shortened, List.map_take]

/-- The ledger was left without its newest record, in the process, in the file and in the
table, and `verify` returns `True`. -/
theorem truncation_undetected :
    (FileLedger.Reachable demoKeys true demoLedger ∧ demoLedger.appended.length = 3 ∧
      { demoLedger with ledger := ⟨demoLedger.ledger.records.take 2⟩ }.verify demoKeys = .ok true ∧
      { demoLedger with lines := demoLedger.lines.take 2 }.reload.verify demoKeys = .ok true) ∧
    SqlAuditLedger.Reachable demoKeys demoTable ∧ demoTable.rows.length = 3 ∧
      SqlAuditLedger.verify demoKeys ⟨demoTable.rows.take 2⟩ = .ok true := by
  have hhistory : History demoKeys shortened :=
    demoLedger_reachable.consistent.1.history.of_prefix (List.take_prefix _ _)
  have hordered : ∀ s ∈ shortened, textOrdered s.payload = true := by decide +kernel
  have hkept {read : PyVal → PyVal} (hread : ReadsAsColumn read) :
      verifyRecords demoKeys (shortened.map (AuditRecord.readBack read)) = .ok true :=
    verify_of_textOrdered hread hhistory (forall₂_readBack read shortened) fun s hs =>
      hordered s (List.mem_of_getElem? hs.choose_spec.2)
  refine ⟨⟨demoLedger_reachable, by decide +kernel, ?_, ?_⟩, demoTable_reachable,
    by decide +kernel, ?_⟩
  · exact verifyRecords_eq_true_iff.mpr hhistory.valid
  · show verifyRecords demoKeys (demoLedger.lines.take 2) = .ok true
    rw [shortened_lines]
    exact hkept readsAsColumn_fileValue
  · exact hkept readsAsColumn_jsonColumn

theorem truncation_detected_iff_demo :
    ({ demoLedger with ledger := ⟨shortened⟩ }.verify demoKeys = .ok false ↔
      ∃ s, At shortened demoLedger.appended (fileRecord s) s ∧ textOrdered s.payload = false) ∧
    ({ demoLedger with lines := demoLedger.lines.take 2 }.reload.verify demoKeys = .ok false ↔
      ∃ s, At (demoLedger.lines.take 2) demoLedger.appended (fileRecord s) s ∧
        textOrdered s.payload = false) ∧
    (SqlAuditLedger.verify demoKeys ⟨shortened⟩ = .ok false ↔
      ∃ s ∈ shortened, textOrdered s.payload = false) := by
  have h := @truncation_detected_iff _ demoKeys
  have hfront : shortened ⊆ demoLedger.appended := List.take_subset _ _
  refine ⟨h.1 true demoLedger demoLedger_reachable shortened (List.take_prefix _ _) ?_,
    h.2.1 demoLedger demoLedger_reachable _ (List.take_prefix _ _) ?_,
    h.2.2 demoTable demoTable_reachable shortened (List.take_prefix _ _) ?_⟩
  · exact demoRecords_hashInjective demoLedger_subset
      ((auditChain demoKeys).contents_mono (List.Subset.trans hfront demoLedger_subset))
  · rw [shortened_lines]
    exact hashInjective_readBack readsAsColumn_fileValue hfront
  · exact hashInjective_readBack readsAsColumn_jsonColumn hfront

end

end EarnedAutonomy
