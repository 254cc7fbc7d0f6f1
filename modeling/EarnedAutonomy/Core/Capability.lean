import EarnedAutonomy.Core.CapabilityStore
import EarnedAutonomy.Core.Models
import EarnedAutonomy.Core.Ontology
import EarnedAutonomy.Crypto
import EarnedAutonomy.Lib.Calendar
import EarnedAutonomy.Lib.Interleave

/-!
# The capability service

`core/capability.py`: minting, verifying, revoking and purging capability
tokens.  Each operation is a program over the atomic calls it makes: a reading
of the clock, a random draw, one operation of the state store.  Nothing is
held between two calls, so other replicas can act in between.

The clock and the random draws are an `Oracle`: the answers of the first, the
second and every later call.

`follows_verifyForAction_ok` and `follows_mint` read off the calls a
verification or a mint has made.  The results about interleavings start from
these two.
-/

namespace EarnedAutonomy

open Atomic Calendar OrderedDict

/-! ## Calls -/

/-- The hexadecimal text of a `uuid4`, split after its 16th digit. -/
structure Uuid where
  first16 : String
  rest : String
  deriving DecidableEq

/-- `uuid4().hex` -/
def Uuid.hex (u : Uuid) : String := u.first16 ++ u.rest

/-- `new_id(kind)` of a draw -/
def newId (kind : String) (u : Uuid) : String := kind ++ "_" ++ u.first16

/-- What the clock and the random generator answer, call by call. -/
structure Oracle where
  time : Nat → DateTime
  uuid : Nat → Uuid

/-- The clock does not run backwards. -/
def Oracle.Steady (o : Oracle) : Prop := ∀ m n, m ≤ n → o.time m ≤ o.time n

/-- No two draws share their first 16 digits. -/
def Oracle.Fresh (o : Oracle) : Prop :=
  ∀ m n, (o.uuid m).first16 = (o.uuid n).first16 → m = n

/-- A minute of one day, for runs on concrete inputs. -/
def demoMinute (hour minute : Nat) : DateTime :=
  ⟨2026, 1, 1, hour % 24, minute % 60, 0, 0, by decide, by omega⟩

def demoHour (hour : Nat) : DateTime := demoMinute hour 0

/-- A generator that draws a longer id every time. -/
def demoOracle (time : Nat → DateTime) : Oracle :=
  ⟨time, fun n => ⟨String.ofList (List.replicate n 'a'), ""⟩⟩

theorem demoOracle_fresh (time : Nat → DateTime) : (demoOracle time).Fresh := by
  intro m n h
  have := congrArg (fun s => s.toList.length) h
  simpa [demoOracle] using this

/-- The atomic calls of the capability service. -/
inductive CapCall where
  | utcNow
  | uuid4
  | recordIssued (tokenId : String) (entry : IssuedEntry)
  | tryConsume (tokenId : String)
  | isRevoked (tokenId : String)
  | revoke (tokenId : String)
  | revokeScope (agentId workflowId authorityValue : String)
  | purgeExpired (now : String)
  deriving DecidableEq

/-- The type of each answer. -/
abbrev CapRes : CapCall → Type
  | .utcNow => DateTime
  | .uuid4 => Uuid
  | .recordIssued _ _ => Unit
  | .tryConsume _ => Bool
  | .isRevoked _ => Bool
  | .revoke _ => Unit
  | .revokeScope _ _ _ => Nat
  | .purgeExpired _ => Nat

/-- Capability state, with how far the clock and the draws have come. -/
structure CapWorld (C : Type) where
  store : C
  reads : Nat
  draws : Nat

section Handler

variable {C : Type} [CapabilityStateStore C]

open CapabilityStateStore

/-- What each call does. -/
def capHandler (o : Oracle) : Handler CapRes (CapWorld C)
  | .utcNow, w => (o.time w.reads, { w with reads := w.reads + 1 })
  | .uuid4, w => (o.uuid w.draws, { w with draws := w.draws + 1 })
  | .recordIssued t e, w => ((), { w with store := recordIssued t e w.store })
  | .tryConsume t, w =>
      ((tryConsume t w.store).1, { w with store := (tryConsume t w.store).2 })
  | .isRevoked t, w => (isRevoked t w.store, w)
  | .revoke t, w => ((), { w with store := revoke t w.store })
  | .revokeScope a wf c, w =>
      ((revokeScope a wf c w.store).1, { w with store := (revokeScope a wf c w.store).2 })
  | .purgeExpired now, w =>
      ((purgeExpired now w.store).1, { w with store := (purgeExpired now w.store).2 })

end Handler

/-- A program of the capability service. -/
abbrev CapProg (α : Type) := Prog PyError CapRes α

/-- One call, as a program. -/
abbrev capCall (c : CapCall) : CapProg (CapRes c) := Prog.perform c

/-! ## Minting -/

/-- The issuer: its key pair and its name. -/
structure CapabilityService (P : Primitives) where
  keys : KeyPair P
  issuer : String := "control-plane"

/-- The arguments of `mint`. -/
structure MintArgs where
  agentId : String
  workflowId : String
  authorityClass : AuthorityClass
  conditions : Mapping
  ttlSeconds : Int
  singleUse : Bool
  eventId : Option String

namespace CapabilityService

variable {P : Primitives} (svc : CapabilityService P)

/-- The token of a mint at a time with two draws, before it is signed. -/
def unsignedToken (args : MintArgs) (now expires : DateTime) (id nonce : Uuid) :
    CapabilityToken where
  tokenId := newId "cap" id
  agentId := args.agentId
  workflowId := args.workflowId
  authorityClass := args.authorityClass
  maxConsequenceRank := consequenceRank args.authorityClass
  conditions := args.conditions
  issuedAt := isoformat now
  expiresAt := isoformat expires
  nonce := nonce.hex
  singleUse := args.singleUse
  issuer := svc.issuer
  eventId := args.eventId

/-- What is put on record for a token. -/
def entryOf (t : CapabilityToken) : IssuedEntry :=
  ⟨t.agentId, t.workflowId, t.authorityClass.value, t.expiresAt⟩

/-- `now + timedelta(seconds=ttl)` -/
def expiry (now : DateTime) (ttlSeconds : Int) : Except PyError DateTime :=
  match now.shift ttlSeconds with
  | some d => .ok d
  | none => .error .overflowError

theorem exists_expiry_iff {now : DateTime} {ttlSeconds : Int} :
    (∃ d, expiry now ttlSeconds = .ok d) ↔ (now.shift ttlSeconds).isSome = true := by
  unfold expiry
  cases now.shift ttlSeconds <;> simp

/-- `mint` -/
def mint (args : MintArgs) : CapProg CapabilityToken := do
  let now ← capCall .utcNow
  let expires ← Prog.ofExcept (expiry now args.ttlSeconds)
  let id ← capCall .uuid4
  let nonce ← capCall .uuid4
  let token := svc.unsignedToken args now expires id nonce
  let payload ← Prog.ofExcept token.signingPayload
  capCall (.recordIssued token.tokenId (entryOf token))
  return { token with signature := some (svc.keys.sign payload) }

/-! ## Verifying -/

structure VerificationResult where
  ok : Bool
  reason : PyStr
  tokenId : Option String
  deriving DecidableEq

/-- The action an agent is about to take.  A missing context is the empty one. -/
structure Action where
  agentId : String
  workflowId : String
  authorityClass : AuthorityClass
  context : Mapping := []

/-- The token is signed and the signature verifies. -/
def signatureValid (t : CapabilityToken) : Except PyError Bool :=
  match t.signature with
  | none => .ok false
  | some signature => do return svc.keys.verify (← t.signingPayload) signature

/-- A token whose signature was checked has signed bytes. -/
theorem exists_payload_of_signatureValid {t : CapabilityToken} {b : Bool}
    (h : svc.signatureValid t = .ok b) (hb : b = true) :
    ∃ payload, t.signingPayload = .ok payload := by
  subst hb
  unfold signatureValid at h
  cases hsig : t.signature with
  | none => simp [hsig] at h
  | some signature =>
    cases hpay : t.signingPayload with
    | ok payload => exact ⟨payload, rfl⟩
    | error e => simp [hsig, hpay, bind, Except.bind] at h

/-- `now >= expires`.  A time without an offset cannot be compared. -/
def hasExpired (now : DateTime) (expires : Stamp) : Except PyError Bool :=
  match expires.offset with
  | none => .error .typeError
  | some offset =>
      if offset = 0 then .ok (expires.time ≤ now)
      else .ok (expires.time.micros - offset ≤ now.micros)

/-- The text of a failed condition. -/
def conditionReason (key : PyStr) : ConditionFailure → PyStr
  | .belowMin => PyStr.utf8 "condition " ++ key ++ PyStr.utf8 " below min"
  | .aboveMax => PyStr.utf8 "condition " ++ key ++ PyStr.utf8 " above max"
  | .notInAllowedSet => PyStr.utf8 "condition " ++ key ++ PyStr.utf8 " not in allowed set"
  | .mismatch => PyStr.utf8 "condition " ++ key ++ PyStr.utf8 " mismatch"

/-- `consequence_rank` of the context is above the token's. -/
def rankExceeded (t : CapabilityToken) (context : Mapping) : Except PyError Bool :=
  match (Dict.get? context "consequence_rank").getD .none with
  | .none => .ok false
  | rank => (PyVal.int t.maxConsequenceRank).lt rank

/-- Why the action falls outside the token, if it does. -/
def scopeRefusal (t : CapabilityToken) (action : Action) : Except PyError (Option PyStr) :=
  if action.agentId ≠ t.agentId then .ok (some "agent mismatch")
  else if action.workflowId ≠ t.workflowId then .ok (some "workflow mismatch")
  else if action.authorityClass ≠ t.authorityClass then .ok (some "authority class mismatch")
  else do
    if ← rankExceeded t action.context then
      return some "action consequence exceeds token scope"
    match ← conditionFailure t.conditions action.context with
    | some (key, failure) => return some (conditionReason key failure)
    | none => return none

/-- An action within a token has its scope. -/
theorem scope_of_scopeRefusal {t : CapabilityToken} {action : Action}
    (h : scopeRefusal t action = .ok none) :
    action.agentId = t.agentId ∧ action.workflowId = t.workflowId ∧
      action.authorityClass = t.authorityClass := by
  unfold scopeRefusal at h
  split at h
  · cases h
  split at h
  · cases h
  split at h
  · cases h
  rename_i hagent hworkflow hclass
  exact ⟨not_not.mp hagent, not_not.mp hworkflow, not_not.mp hclass⟩

/-- What a token covers. -/
theorem scopeRefusal_eq_none_iff {t : CapabilityToken} {action : Action} :
    scopeRefusal t action = .ok none ↔
    action.agentId = t.agentId ∧ action.workflowId = t.workflowId ∧
      action.authorityClass = t.authorityClass ∧ rankExceeded t action.context = .ok false ∧
      conditionFailure t.conditions action.context = .ok none := by
  constructor
  · intro h
    obtain ⟨hagent, hworkflow, hclass⟩ := scope_of_scopeRefusal h
    unfold scopeRefusal at h
    rw [if_neg (not_not.mpr hagent), if_neg (not_not.mpr hworkflow),
      if_neg (not_not.mpr hclass)] at h
    obtain ⟨exceeded, hrank, h⟩ := bind_eq_ok_iff.mp h
    cases exceeded with
    | true => cases h
    | false =>
      obtain ⟨failure?, hconditions, h⟩ := bind_eq_ok_iff.mp h
      cases failure? with
      | none => exact ⟨hagent, hworkflow, hclass, hrank, hconditions⟩
      | some failure => cases h
  · rintro ⟨hagent, hworkflow, hclass, hrank, hconditions⟩
    unfold scopeRefusal
    rw [if_neg (not_not.mpr hagent), if_neg (not_not.mpr hworkflow),
      if_neg (not_not.mpr hclass), hrank, hconditions]
    rfl

/-- A refusal with its reason. -/
def refuse (t : CapabilityToken) (reason : PyStr) : VerificationResult :=
  ⟨false, reason, some t.tokenId⟩

def accept (t : CapabilityToken) : VerificationResult := ⟨true, "ok", some t.tokenId⟩

/-- The last gate: a single-use token must be consumed now. -/
def consumeGate (t : CapabilityToken) : CapProg VerificationResult :=
  if t.singleUse then do
    if ← capCall (.tryConsume t.tokenId) then return accept t
    else if ← capCall (.isRevoked t.tokenId) then return refuse t "token revoked"
    else return refuse t "single-use token already consumed"
  else return accept t

/-- `verify_for_action` -/
def verifyForAction (t : CapabilityToken) (action : Action) : CapProg VerificationResult := do
  if ← Prog.ofExcept (svc.signatureValid t) then
    if ← capCall (.isRevoked t.tokenId) then return refuse t "token revoked"
    else
      match fromisoformat t.expiresAt with
      | none => return refuse t "malformed expiry"
      | some expires =>
          let now ← capCall .utcNow
          if ← Prog.ofExcept (hasExpired now expires) then return refuse t "token expired"
          else
            match ← Prog.ofExcept (scopeRefusal t action) with
            | some reason => return refuse t reason
            | none => consumeGate t
  else return refuse t "invalid token signature"

/-! ## Revoking and purging -/

def revoke (tokenId : String) : CapProg Unit := capCall (.revoke tokenId)

def revokeScope (agentId workflowId : String) (authorityClass : AuthorityClass) : CapProg Nat :=
  capCall (.revokeScope agentId workflowId authorityClass.value)

/-- The time of a purge: the argument, or a reading of the clock where there is
none or an empty one. -/
def purgeTime : Option String → CapProg String
  | some now => if now = "" then isoformat <$> capCall .utcNow else pure now
  | none => isoformat <$> capCall .utcNow

/-- `purge_expired`.  The clock is read before the lock is taken. -/
def purgeExpired (nowIso : Option String) : CapProg Nat := do
  capCall (.purgeExpired (← purgeTime nowIso))

/-! ## The service -/

/-- One call of the service. -/
inductive Request where
  | mint (args : MintArgs)
  | verifyForAction (token : CapabilityToken) (action : Action)
  | revoke (tokenId : String)
  | revokeScope (agentId workflowId : String) (authorityClass : AuthorityClass)
  | purgeExpired (nowIso : Option String)

inductive Reply where
  | minted (token : CapabilityToken)
  | verified (result : VerificationResult)
  | revoked
  | count (n : Nat)

/-- The program of a request. -/
def body : Request → CapProg Reply
  | .mint args => do return .minted (← svc.mint args)
  | .verifyForAction token action => do return .verified (← svc.verifyForAction token action)
  | .revoke tokenId => do
      revoke tokenId
      return .revoked
  | .revokeScope a w c => do return .count (← revokeScope a w c)
  | .purgeExpired nowIso => do return .count (← purgeExpired nowIso)

/-- Replicas of the service on one store.  A request names the replica it runs
on, and every request is a thread of its own. -/
def deployment {C : Type} [CapabilityStateStore C] (svc : Nat → CapabilityService P)
    (o : Oracle) : Service PyError (Nat × Request) CapRes Reply (CapWorld C) where
  body r := (svc r.1).body r.2
  handler _ := capHandler o

end CapabilityService

/-! ## The calls of a request -/

namespace CapabilityService

open Prog Service

variable {P : Primitives} {svc : CapabilityService P}

private theorem ok_ne_true_of_refuse {t : CapabilityToken} {reason : PyStr}
    {calls : List ((op : CapCall) × CapRes op)} {r : VerificationResult}
    (h : Follows (.done (refuse t reason) : CapProg VerificationResult) calls (.done r)) :
    r.ok ≠ true := by
  rw [follows_done_iff] at h
  cases h.2
  exact Bool.false_ne_true

private theorem follows_consumeGate_ok {t : CapabilityToken}
    {calls : List ((op : CapCall) × CapRes op)} {r : VerificationResult}
    (h : Follows (consumeGate t) calls (.done r)) (hr : r.ok = true) :
    calls = if t.singleUse then [⟨.tryConsume t.tokenId, true⟩] else [] := by
  unfold consumeGate at h
  cases hsingle : t.singleUse with
  | false =>
    simp only [hsingle, Bool.false_eq_true, if_false, pure_eq_done, follows_done_iff] at h
    simp [h.1]
  | true =>
    simp only [hsingle, if_true, perform_bind, follows_call_done_iff] at h
    obtain ⟨consumed, rest, rfl, h⟩ := h
    cases consumed with
    | true =>
      simp only [if_true, pure_eq_done, follows_done_iff] at h
      simp [h.1]
    | false =>
      simp only [Bool.false_eq_true, if_false, follows_call_done_iff] at h
      obtain ⟨revoked, rest, rfl, h⟩ := h
      cases revoked <;> exact absurd hr (ok_ne_true_of_refuse h)

/-- An accepted verification found a valid signature, no revocation mark and an
expiry in the future, matched the scope and consumed a single-use token. -/
theorem follows_verifyForAction_ok {t : CapabilityToken} {action : Action}
    {calls : List ((op : CapCall) × CapRes op)} {r : VerificationResult}
    (h : Follows (svc.verifyForAction t action) calls (.done r)) (hr : r.ok = true) :
    svc.signatureValid t = .ok true ∧ scopeRefusal t action = .ok none ∧
      ∃ expires now, fromisoformat t.expiresAt = some expires ∧
        hasExpired now expires = .ok false ∧
        calls = ⟨.isRevoked t.tokenId, false⟩ :: ⟨.utcNow, now⟩ ::
          (if t.singleUse then [⟨.tryConsume t.tokenId, true⟩] else []) := by
  unfold verifyForAction at h
  cases hsig : svc.signatureValid t with
  | error e => simp [hsig] at h
  | ok valid =>
    cases valid with
    | false =>
      simp only [hsig, ofExcept_ok, done_bind, Bool.false_eq_true, if_false, pure_eq_done] at h
      exact absurd hr (ok_ne_true_of_refuse h)
    | true =>
      simp only [hsig, ofExcept_ok, done_bind, if_true, perform_bind, follows_call_done_iff] at h
      obtain ⟨revoked, rest, rfl, h⟩ := h
      cases revoked with
      | true => exact absurd hr (ok_ne_true_of_refuse h)
      | false =>
        simp only [Bool.false_eq_true, if_false] at h
        cases hexp : fromisoformat t.expiresAt with
        | none =>
          simp only [hexp, pure_eq_done] at h
          exact absurd hr (ok_ne_true_of_refuse h)
        | some expires =>
          simp only [hexp, follows_call_done_iff] at h
          obtain ⟨now, rest, rfl, h⟩ := h
          cases hnow : hasExpired now expires with
          | error e => simp [hnow] at h
          | ok expired =>
            cases expired with
            | true =>
              simp only [hnow, ofExcept_ok, done_bind, if_true, pure_eq_done] at h
              exact absurd hr (ok_ne_true_of_refuse h)
            | false =>
              simp only [hnow, ofExcept_ok, done_bind, Bool.false_eq_true, if_false] at h
              cases hscope : scopeRefusal t action with
              | error e => simp [hscope] at h
              | ok refusal =>
                cases refusal with
                | some reason =>
                  simp only [hscope, ofExcept_ok, done_bind, pure_eq_done] at h
                  exact absurd hr (ok_ne_true_of_refuse h)
                | none =>
                  simp only [hscope, ofExcept_ok, done_bind] at h
                  refine ⟨rfl, rfl, expires, now, rfl, hnow, ?_⟩
                  rw [follows_consumeGate_ok h hr]

/-- A mint that has put a token on record made exactly these four calls. -/
theorem follows_mint {args : MintArgs} {calls : List ((op : CapCall) × CapRes op)}
    {q : CapProg CapabilityToken} (h : Follows (svc.mint args) calls q) {tokenId : String}
    {entry : IssuedEntry} (hrec : ⟨.recordIssued tokenId entry, ()⟩ ∈ calls) :
    ∃ now expires id nonce, calls = [⟨.utcNow, now⟩, ⟨.uuid4, id⟩, ⟨.uuid4, nonce⟩,
        ⟨.recordIssued tokenId entry, ()⟩] ∧
      tokenId = newId "cap" id ∧
      entry = entryOf (svc.unsignedToken args now expires id nonce) := by
  simp only [mint, perform_bind, follows_call_iff] at h
  rcases h with ⟨rfl, _⟩ | ⟨now, calls, rfl, h⟩
  · simp at hrec
  cases hexp : expiry now args.ttlSeconds with
  | error e =>
    simp only [hexp, ofExcept_error, raise_bind, follows_raise_iff] at h
    simp [h.1] at hrec
  | ok expires =>
    simp only [hexp, ofExcept_ok, done_bind, follows_call_iff] at h
    rcases h with ⟨rfl, _⟩ | ⟨id, calls, rfl, h⟩
    · simp at hrec
    rcases h with ⟨rfl, _⟩ | ⟨nonce, calls, rfl, h⟩
    · simp at hrec
    cases hpay : (svc.unsignedToken args now expires id nonce).signingPayload with
    | error e =>
      simp only [hpay, ofExcept_error, raise_bind, follows_raise_iff] at h
      simp [h.1] at hrec
    | ok payload =>
      simp only [hpay, ofExcept_ok, done_bind, follows_call_iff, pure_eq_done,
        follows_done_iff] at h
      rcases h with ⟨rfl, _⟩ | ⟨u, calls, rfl, rfl, _⟩
      · simp at hrec
      · simp only [List.mem_cons, Sigma.mk.injEq, reduceCtorEq, false_and, false_or,
          CapCall.recordIssued.injEq, List.not_mem_nil, or_false] at hrec
        obtain ⟨⟨rfl, rfl⟩, _⟩ := hrec
        exact ⟨now, expires, id, nonce, rfl, rfl, rfl⟩

/-- A finished mint put its token on record. -/
theorem follows_mint_done {args : MintArgs} {calls : List ((op : CapCall) × CapRes op)}
    {t : CapabilityToken} (h : Follows (svc.mint args) calls (.done t)) :
    ∃ now expires id nonce payload, expiry now args.ttlSeconds = .ok expires ∧
      (svc.unsignedToken args now expires id nonce).signingPayload = .ok payload ∧
      t = { svc.unsignedToken args now expires id nonce with
        signature := some (svc.keys.sign payload) } ∧
      calls = [⟨.utcNow, now⟩, ⟨.uuid4, id⟩, ⟨.uuid4, nonce⟩,
        ⟨.recordIssued t.tokenId (entryOf t), ()⟩] := by
  simp only [mint, perform_bind, follows_call_done_iff, follows_ofExcept_bind_done_iff] at h
  obtain ⟨now, calls, rfl, expires, hexp, id, calls, rfl, nonce, calls, rfl, payload, hpay, _,
    calls, rfl, h⟩ := h
  rw [pure_eq_done, follows_done_iff, Prog.done.injEq] at h
  obtain ⟨rfl, rfl⟩ := h
  exact ⟨now, expires, id, nonce, payload, hexp, hpay, rfl, rfl⟩

/-- The calls a mint can make. -/
theorem uses_mint {A : CapCall → Prop} (hclock : A .utcNow) (hdraw : A .uuid4)
    (hrecord : ∀ t e, A (.recordIssued t e)) (args : MintArgs) : (svc.mint args).Uses A := by
  refine uses_bind ⟨hclock, fun _ => trivial⟩ fun now => ?_
  refine uses_bind (uses_ofExcept _) fun expires => ?_
  refine uses_bind ⟨hdraw, fun _ => trivial⟩ fun id => ?_
  refine uses_bind ⟨hdraw, fun _ => trivial⟩ fun nonce => ?_
  exact uses_bind (uses_ofExcept _) fun payload => ⟨hrecord _ _, fun _ => trivial⟩

/-- The calls a verification can make. -/
theorem uses_verifyForAction {A : CapCall → Prop} {t : CapabilityToken} {action : Action}
    (hrevoked : A (.isRevoked t.tokenId)) (hclock : A .utcNow)
    (hconsume : A (.tryConsume t.tokenId)) : (svc.verifyForAction t action).Uses A := by
  unfold verifyForAction
  refine uses_bind (uses_ofExcept _) fun valid => ?_
  cases valid with
  | false => trivial
  | true =>
    simp only [if_true, perform_bind]
    refine ⟨hrevoked, fun revoked => ?_⟩
    cases revoked with
    | true => trivial
    | false =>
      cases fromisoformat t.expiresAt with
      | none => trivial
      | some expires =>
        refine ⟨hclock, fun now => ?_⟩
        refine uses_bind (uses_ofExcept _) fun expired => ?_
        cases expired with
        | true => trivial
        | false =>
          refine uses_bind (uses_ofExcept _) fun refusal => ?_
          cases refusal with
          | some reason => trivial
          | none =>
            simp only [consumeGate]
            cases t.singleUse with
            | false => trivial
            | true =>
              refine ⟨hconsume, fun consumed => ?_⟩
              cases consumed with
              | true => trivial
              | false => exact ⟨hrevoked, fun b => by cases b <;> trivial⟩

/-- The calls a purge can make. -/
theorem uses_purgeExpired {A : CapCall → Prop} (hclock : A .utcNow)
    (hpurge : ∀ now, A (.purgeExpired now)) (nowIso : Option String) :
    (purgeExpired nowIso).Uses A := by
  have last : ∀ now, (capCall (.purgeExpired now)).Uses A :=
    fun now => ⟨hpurge now, fun _ => trivial⟩
  refine uses_bind ?_ last
  cases nowIso with
  | none => exact ⟨hclock, fun _ => trivial⟩
  | some time =>
    by_cases hempty : time = ""
    · rw [purgeTime, if_pos hempty]
      exact ⟨hclock, fun _ => trivial⟩
    · rw [purgeTime, if_neg hempty]
      trivial

/-- Only a mint puts a token on record, and no request does it twice. -/
theorem follows_body_record {r : Request} {calls : List ((op : CapCall) × CapRes op)}
    {q : CapProg Reply} (h : Follows (svc.body r) calls q) {tokenId : String}
    {entry : IssuedEntry} (hrec : ⟨.recordIssued tokenId entry, ()⟩ ∈ calls) :
    ∃ args now expires id nonce, r = .mint args ∧
      calls = [⟨.utcNow, now⟩, ⟨.uuid4, id⟩, ⟨.uuid4, nonce⟩,
        ⟨.recordIssued tokenId entry, ()⟩] ∧
      tokenId = newId "cap" id ∧
      entry = entryOf (svc.unsignedToken args now expires id nonce) := by
  have other : ¬ (svc.body r).Uses (fun op => ∀ t e, op ≠ .recordIssued t e) :=
    fun huses => h.uses_calls huses _ hrec _ _ rfl
  cases r with
  | mint args =>
    obtain ⟨p, hp, _⟩ := Follows.of_map h
    obtain ⟨now, expires, id, nonce, hcalls, hid, hentry⟩ := follows_mint hp hrec
    exact ⟨args, now, expires, id, nonce, rfl, hcalls, hid, hentry⟩
  | verifyForAction t action =>
    exact absurd (uses_bind (uses_verifyForAction (by simp) (by simp) (by simp))
      fun _ => uses_done _) other
  | revoke tokenId => exact absurd ⟨by simp, fun _ => trivial⟩ other
  | revokeScope a w c => exact absurd ⟨by simp, fun _ => trivial⟩ other
  | purgeExpired nowIso =>
    exact absurd (uses_bind (uses_purgeExpired (by simp) (by simp) _) fun _ => uses_done _) other

/-- A verification that is about to consume its token read the clock before its
expiry. -/
theorem follows_verifyForAction_tryConsume {t : CapabilityToken} {action : Action}
    {calls : List ((op : CapCall) × CapRes op)} {u : String}
    {next : Bool → CapProg VerificationResult}
    (h : Follows (svc.verifyForAction t action) calls (.call (.tryConsume u) next)) :
    ∃ now expires, calls = [⟨.isRevoked t.tokenId, false⟩, ⟨.utcNow, now⟩] ∧
      fromisoformat t.expiresAt = some expires ∧ hasExpired now expires = .ok false := by
  unfold verifyForAction at h
  cases hsig : svc.signatureValid t with
  | error e => simp [hsig] at h
  | ok valid =>
    cases valid with
    | false => simp [hsig] at h
    | true =>
      simp only [hsig, ofExcept_ok, done_bind, if_true, perform_bind, follows_call_iff,
        Prog.call.injEq, reduceCtorEq, false_and, and_false, false_or] at h
      obtain ⟨revoked, rest, rfl, h⟩ := h
      cases revoked with
      | true => simp at h
      | false =>
        simp only [Bool.false_eq_true, if_false] at h
        cases hexp : fromisoformat t.expiresAt with
        | none => simp [hexp] at h
        | some expires =>
          simp only [hexp, follows_call_iff, Prog.call.injEq, reduceCtorEq, false_and, and_false,
            false_or] at h
          obtain ⟨now, rest, rfl, h⟩ := h
          cases hnow : hasExpired now expires with
          | error e => simp [hnow] at h
          | ok expired =>
            cases expired with
            | true => simp [hnow] at h
            | false =>
              simp only [hnow, ofExcept_ok, done_bind, Bool.false_eq_true, if_false] at h
              refine ⟨now, expires, ?_, rfl, hnow⟩
              cases hscope : scopeRefusal t action with
              | error e => simp [hscope] at h
              | ok refusal =>
                cases refusal with
                | some reason => simp [hscope] at h
                | none =>
                  simp only [hscope, ofExcept_ok, done_bind, consumeGate] at h
                  cases hsingle : t.singleUse with
                  | false => simp [hsingle] at h
                  | true =>
                    simp only [hsingle, if_true, perform_bind, follows_call_iff] at h
                    rcases h with ⟨rfl, _⟩ | ⟨consumed, rest, rfl, h⟩
                    · rfl
                    · cases consumed <;> simp [follows_call_iff] at h

/-- A purge uses the time it was given or its reading of the clock. -/
theorem follows_purgeExpired_call {nowIso : Option String}
    {calls : List ((op : CapCall) × CapRes op)} {now : String} {next : Nat → CapProg Nat}
    (h : Follows (purgeExpired nowIso) calls (.call (.purgeExpired now) next)) :
    (nowIso = some now ∧ now ≠ "") ∨ ∃ d, ⟨.utcNow, d⟩ ∈ calls ∧ now = isoformat d := by
  -- the purge itself, once the time is known
  have given : ∀ {calls} {time : String},
      Follows (capCall (.purgeExpired time)) calls (.call (.purgeExpired now) next) →
      now = time := by
    intro calls time h
    rcases follows_call_iff.mp h with ⟨_, heq⟩ | ⟨_, _, _, h⟩
    · cases heq
      rfl
    · cases h
  have reading : ∀ {calls}, Follows (.call .utcNow fun d => capCall (.purgeExpired (isoformat d)))
      calls (.call (.purgeExpired now) next) → ∃ d, ⟨.utcNow, d⟩ ∈ calls ∧ now = isoformat d := by
    intro calls h
    rcases follows_call_iff.mp h with ⟨_, heq⟩ | ⟨d, rest, hcalls, h⟩
    · cases heq
    · exact ⟨d, by simp [hcalls], given h⟩
  cases nowIso with
  | none => exact Or.inr (reading h)
  | some time =>
    by_cases hempty : time = ""
    · subst hempty
      exact Or.inr (reading h)
    · simp only [purgeExpired, purgeTime, hempty, if_false, pure_eq_done, done_bind] at h
      rw [given h]
      exact Or.inl ⟨rfl, hempty⟩

end CapabilityService

end EarnedAutonomy
