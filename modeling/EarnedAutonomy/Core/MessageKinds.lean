import EarnedAutonomy.Core.Attribution

/-!
# What the issuer key signs

One key signs capability tokens, ledger records and ledger checkpoints, without a
tag that says which.

* `messageKinds_disjoint`: no two messages of different kinds are the same text.
  A token and a checkpoint are objects with different keys, and the hash of a record
  is no object.
* `signatures_stay_in_kind`: a signature that is for one of these messages is not
  accepted as one of another kind.
-/

namespace EarnedAutonomy

open Atomic Prog OrderedDict

variable {P : Primitives}

/-! ## Messages -/

/-- The entries of a token that are signed, with any value for its conditions. -/
def CapabilityToken.signingEntriesWith (t : CapabilityToken) (conditions : PyVal) :
    List (PyKey × PyVal) :=
  t.signingEntries.map fun e => if e.1 = .str "conditions" then (e.1, conditions) else e

/-- The message is the signed text of a token. -/
def SignsToken (message : Bytes) : Prop :=
  ∃ (t : CapabilityToken) (conditions : PyVal),
    canonicalBytes (.dict (t.signingEntriesWith conditions)) = .ok message

/-- The message is the hash of a record. -/
def SignsRecord (P : Primitives) (message : Bytes) : Prop :=
  ∃ r : AuditRecord, hashRecord P r = .ok message

/-- The message is the signed text of a checkpoint. -/
def SignsCheckpoint (message : Bytes) : Prop :=
  ∃ (sequence : Nat) (headHash : Option String) (count : Nat),
    canonicalBytes (Checkpoint.signingDict sequence headHash count) = .ok message

theorem signsToken_of_signingPayload {t : CapabilityToken} {message : Bytes}
    (h : t.signingPayload = .ok message) : SignsToken message := by
  refine ⟨t, t.conditions.toVal, ?_⟩
  rw [← h]
  rfl

theorem not_signsRecord_of_object {d : List (PyKey × PyVal)} {message : Bytes}
    (h : canonicalBytes (.dict d) = .ok message) : ¬ SignsRecord P message := by
  intro ⟨r, hr⟩
  obtain ⟨bytes, _, hhash⟩ := bind_eq_ok_iff.mp hr
  obtain rfl := Except.ok.inj hhash
  exact canonicalBytes_dict_ne_sha256 d _ h

/-- A token has a key that no checkpoint has. -/
theorem not_signsCheckpoint_of_signsToken {message : Bytes} (h : SignsToken message) :
    ¬ SignsCheckpoint message := by
  obtain ⟨t, conditions, ht⟩ := h
  intro ⟨sequence, headHash, count, hcheckpoint⟩
  have hkeys := keyTexts_perm_of_canon_eq (canon_eq_of_canonicalBytes ht hcheckpoint)
  have hmem : "token_id" ∈ (t.signingEntriesWith conditions).map fun e => (keyText e.1).toText := by
    simp [CapabilityToken.signingEntriesWith, CapabilityToken.signingEntries, keyText, PyStr.toText]
  have hmem := hkeys.mem_iff.mp hmem
  simp [keyText, PyStr.toText] at hmem

/-- The three kinds of messages that the issuer key signs have no text in common,
whatever the fields are. -/
theorem messageKinds_disjoint (P : Primitives) (message : Bytes) :
    ¬ (SignsToken message ∧ SignsRecord P message) ∧
      ¬ (SignsToken message ∧ SignsCheckpoint message) ∧
      ¬ (SignsCheckpoint message ∧ SignsRecord P message) := by
  refine ⟨fun ⟨⟨t, conditions, ht⟩, hrecord⟩ => ?_, fun ⟨htoken, hcheckpoint⟩ => ?_,
    fun ⟨⟨sequence, headHash, count, hcheckpoint⟩, hrecord⟩ => ?_⟩
  · exact not_signsRecord_of_object ht hrecord
  · exact not_signsCheckpoint_of_signsToken htoken hcheckpoint
  · exact not_signsRecord_of_object hcheckpoint hrecord

/-- What the issuer key signs. -/
def issuerMessages (P : Primitives) : Set Bytes :=
  {message | SignsToken message ∨ SignsRecord P message ∨ SignsCheckpoint message}

/-! ## Signatures -/

/-- The signature is on a token that the service accepts for an action. -/
def AcceptsToken (svc : CapabilityService P) (signature : String) : Prop :=
  ∃ (t : CapabilityToken) (action : CapabilityService.Action)
    (calls : List ((c : CapCall) × CapRes c)) (r : CapabilityService.VerificationResult),
    t.signature = some signature ∧ Follows (svc.verifyForAction t action) calls (.done r) ∧
      r.ok = true

/-- The signature is on a record of a ledger that verifies, or passes for the one of a
checkpoint. -/
def AcceptsLedger (keys : KeyPair P) (signature : String) : Prop :=
  (∃ records, verifyRecords keys records = .ok true ∧
    ∃ r ∈ records, r.signature = some signature) ∨
  ∃ message, SignsCheckpoint message ∧ keys.verify message signature = true

theorem exists_message_of_acceptsToken {svc : CapabilityService P} {signature : String}
    (h : AcceptsToken svc signature) :
    ∃ message, SignsToken message ∧ svc.keys.verify message signature = true := by
  obtain ⟨t, action, calls, r, hsig, hcalls, hok⟩ := h
  obtain ⟨hvalid, _⟩ := CapabilityService.follows_verifyForAction_ok hcalls hok
  unfold CapabilityService.signatureValid at hvalid
  rw [hsig] at hvalid
  obtain ⟨message, hmessage, hverify⟩ := bind_eq_ok_iff.mp hvalid
  exact ⟨message, signsToken_of_signingPayload hmessage, Except.ok.inj hverify⟩

/-- Every signature of a ledger that verifies is for the hash of its record. -/
theorem exists_message_of_verifyFrom {keys : KeyPair P} {records : List AuditRecord} {i : Nat}
    {previousHash : Option String} (h : verifyFrom keys i previousHash records = .ok true)
    {r : AuditRecord} (hr : r ∈ records) {signature : String}
    (hsig : r.signature = some signature) :
    ∃ message, SignsRecord P message ∧ keys.verify message signature = true := by
  induction records generalizing i previousHash with
  | nil => cases hr
  | cons x rest ih =>
    unfold verifyFrom at h
    split at h
    · cases h
    split at h
    · cases h
    obtain ⟨expected, hexpected, h⟩ := bind_eq_ok_iff.mp h
    split at h
    · cases h
    split at h
    · cases h
    rename_i hsigned
    rcases List.mem_cons.mp hr with rfl | hr
    · refine ⟨expected, ⟨r, hexpected⟩, ?_⟩
      simpa [hsig] using hsigned
    · exact ih h hr

theorem exists_message_of_acceptsLedger {keys : KeyPair P} {signature : String}
    (h : AcceptsLedger keys signature) :
    ∃ message, (SignsRecord P message ∨ SignsCheckpoint message) ∧
      keys.verify message signature = true := by
  rcases h with ⟨records, hverify, r, hr, hsig⟩ | ⟨message, hcheckpoint, hverify⟩
  · obtain ⟨message, hrecord, hverify⟩ := exists_message_of_verifyFrom hverify hr hsig
    exact ⟨message, Or.inl hrecord, hverify⟩
  · exact ⟨message, Or.inr hcheckpoint, hverify⟩

/-- Tokens, records and checkpoints never share a message.  So a signature that is, among
these messages, for one record or checkpoint is on no token that is accepted, and one for a
token is on no record of a ledger that verifies and passes for no checkpoint. -/
theorem signatures_stay_in_kind (svc : CapabilityService P) :
    (∀ message, ¬ (SignsToken message ∧ SignsRecord P message) ∧
      ¬ (SignsToken message ∧ SignsCheckpoint message) ∧
      ¬ (SignsCheckpoint message ∧ SignsRecord P message)) ∧
    (∀ message signature, P.Binds svc.keys.publicKeyHex signature (issuerMessages P) →
      SignsRecord P message ∨ SignsCheckpoint message →
      svc.keys.verify message signature = true → ¬ AcceptsToken svc signature) ∧
    ∀ message signature, P.Binds svc.keys.publicKeyHex signature (issuerMessages P) →
      SignsToken message →
      svc.keys.verify message signature = true → ¬ AcceptsLedger svc.keys signature := by
  have hdisjoint := messageKinds_disjoint P
  refine ⟨hdisjoint, fun message signature hbinds hledger hverify haccepts => ?_,
    fun message signature hbinds htoken hverify haccepts => ?_⟩
  · obtain ⟨message', htoken, hverify'⟩ := exists_message_of_acceptsToken haccepts
    obtain rfl : message = message' :=
      hbinds _ (Or.inr hledger) _ (Or.inl htoken) hverify hverify'
    rcases hledger with hrecord | hcheckpoint
    · exact (hdisjoint message).1 ⟨htoken, hrecord⟩
    · exact (hdisjoint message).2.1 ⟨htoken, hcheckpoint⟩
  · obtain ⟨message', hledger, hverify'⟩ := exists_message_of_acceptsLedger haccepts
    obtain rfl : message = message' :=
      hbinds _ (Or.inl htoken) _ (Or.inr hledger) hverify hverify'
    rcases hledger with hrecord | hcheckpoint
    · exact (hdisjoint message).1 ⟨htoken, hrecord⟩
    · exact (hdisjoint message).2.1 ⟨htoken, hcheckpoint⟩

/-- A service with an issuer key that binds. -/
def taggedService : CapabilityService Primitives.tagged where
  keys := .ofPrivate _ "issuer"

/-- The signature of the first checkpoint is on no token that is accepted. -/
theorem checkpoint_signs_no_token :
    (canonicalBytes (Checkpoint.signingDict 0 none 1)).isOk = true ∧
      ∀ message, canonicalBytes (Checkpoint.signingDict 0 none 1) = .ok message →
        ¬ AcceptsToken taggedService (taggedService.keys.sign message) := by
  obtain ⟨_, hledger, _⟩ := signatures_stay_in_kind taggedService
  refine ⟨by decide +kernel, fun message hmessage => ?_⟩
  exact hledger message _ (tagged_binds _ _ _) (Or.inr ⟨0, none, 1, hmessage⟩)
    (KeyPair.verify_sign _ _)

end EarnedAutonomy
