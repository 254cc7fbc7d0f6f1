import EarnedAutonomy.Core.ClosedScopes
import EarnedAutonomy.Core.IncidentFrame
import EarnedAutonomy.Core.Verification
import EarnedAutonomy.Enforcement.Sdk

/-!
# Usable tokens

A token that a proposal hands out is good for the action that was proposed.

* `SingleUseStore` is what both backends promise about marks: a token has none before somebody
  sets it, and a token on record without one can be consumed.
* `Live` is a token as it stands between its record and its first use.  No call that is not
  about the token or its scope changes it (`Live.capHandler`).
* `issued_token_is_usable`: what the client makes of the packet passes the enforcement point
  once, and never again.
-/

namespace EarnedAutonomy

open Atomic Service Prog Calendar OrderedDict CapabilityStateStore CapabilityService
open ControlPlane hiding body

/-! ## Marks -/

/-- Where the marks of a token come from. -/
class SingleUseStore (C : Type) [CapabilityStateStore C] : Prop where
  isConsumed_empty : ∀ t, isConsumed t (empty : C) = false
  isRevoked_empty : ∀ t, isRevoked t (empty : C) = false
  isConsumed_recordIssued : ∀ (s : C) t e u, isConsumed u (recordIssued t e s) = isConsumed u s
  isRevoked_recordIssued : ∀ (s : C) t e u, isRevoked u (recordIssued t e s) = isRevoked u s
  isConsumed_revoke : ∀ (s : C) t u, isConsumed u (revoke t s) = isConsumed u s
  isRevoked_revoke_ne : ∀ (s : C) t u, t ≠ u → isRevoked u (revoke t s) = isRevoked u s
  /-- A purge touches tokens on record alone. -/
  purgeExpired_of_none : ∀ (s : C) now u, issued? s u = none →
    isConsumed u (purgeExpired now s).2 = isConsumed u s ∧
      isRevoked u (purgeExpired now s).2 = isRevoked u s
  tryConsume_of_live : ∀ (s : C) t e, issued? s t = some e → isConsumed t s = false →
    isRevoked t s = false → (tryConsume t s).1 = true
  tryConsume_of_isConsumed : ∀ (s : C) t, isConsumed t s = true → (tryConsume t s).1 = false

open InMemoryCapabilityStore in
instance : SingleUseStore InMemoryCapabilityStore where
  isConsumed_empty _ := rfl
  isRevoked_empty _ := rfl
  isConsumed_recordIssued _ _ _ _ := rfl
  isRevoked_recordIssued _ _ _ _ := rfl
  isConsumed_revoke _ _ _ := rfl
  isRevoked_revoke_ne s t u hne := by
    rw [Bool.eq_iff_iff, isRevoked_iff, isRevoked_iff]
    show u ∈ (s.revoke t).revoked ↔ _
    rw [mem_revoked_revoke, or_iff_right (Ne.symm hne)]
  purgeExpired_of_none s now u hnone := by
    have hkept : u ∉ (s.issued.filter fun e => e.2.expiresAt < now).map Prod.fst := by
      intro hmem
      obtain ⟨e, he, rfl⟩ := List.mem_map.mp hmem
      have hfound : Dict.get? s.issued e.1 = some e.2 :=
        (Dict.get?_eq_some_iff s.nodup).mpr (List.mem_filter.mp he).1
      have hnone : Dict.get? s.issued e.1 = none := hnone
      rw [hfound] at hnone
      cases hnone
    have hfilter : ∀ marks : List String, u ∈ marks.filter
        (· ∉ (s.issued.filter fun e => e.2.expiresAt < now).map Prod.fst) ↔ u ∈ marks := by
      intro marks
      rw [List.mem_filter]
      exact and_iff_left (decide_eq_true hkept)
    exact ⟨decide_eq_decide.mpr (hfilter s.consumed), decide_eq_decide.mpr (hfilter s.revoked)⟩
  tryConsume_of_live s t e _ hconsumed hrevoked := by
    have hunmarked : ¬ (t ∈ s.consumed ∨ t ∈ s.revoked) := by
      rw [not_or]
      exact ⟨of_decide_eq_false hconsumed, of_decide_eq_false hrevoked⟩
    show (s.tryConsume t).1 = true
    unfold InMemoryCapabilityStore.tryConsume
    rw [if_neg hunmarked]
  tryConsume_of_isConsumed s t hconsumed := by
    show (s.tryConsume t).1 = false
    unfold InMemoryCapabilityStore.tryConsume
    rw [if_pos (Or.inl (of_decide_eq_true hconsumed))]

namespace SqlCapabilityStore

theorem isRevoked_eq (s : SqlCapabilityStore) (t : String) :
    CapabilityStateStore.isRevoked t s = ((s.row? t).map TokenRow.revoked).getD false := by
  simp only [CapabilityStateStore.isRevoked, isRevoked, row?]
  cases Dict.get? s.rows t <;> rfl

/-- Rows that agree on their marks have the same marks. -/
theorem marks_eq {s s' : SqlCapabilityStore} {t : String}
    (h : (s'.row? t).map (fun r => (r.consumed, r.revoked)) =
      (s.row? t).map fun r => (r.consumed, r.revoked)) :
    CapabilityStateStore.isConsumed t s' = CapabilityStateStore.isConsumed t s ∧
      CapabilityStateStore.isRevoked t s' = CapabilityStateStore.isRevoked t s := by
  rw [isConsumed_eq, isConsumed_eq, isRevoked_eq, isRevoked_eq]
  cases hs : s.row? t <;> cases hs' : s'.row? t <;> simp_all

theorem marks_recordIssued (s : SqlCapabilityStore) (t : String) (e : IssuedEntry) (u : String) :
    CapabilityStateStore.isConsumed u (s.recordIssued t e) =
        CapabilityStateStore.isConsumed u s ∧
      CapabilityStateStore.isRevoked u (s.recordIssued t e) =
        CapabilityStateStore.isRevoked u s := by
  rw [isConsumed_eq, isConsumed_eq, isRevoked_eq, isRevoked_eq, row?_recordIssued]
  split
  · rename_i htu
    subst htu
    cases s.row? t <;> exact ⟨rfl, rfl⟩
  · exact ⟨rfl, rfl⟩

end SqlCapabilityStore

open SqlCapabilityStore in
instance : SingleUseStore SqlCapabilityStore where
  isConsumed_empty _ := rfl
  isRevoked_empty _ := rfl
  isConsumed_recordIssued s t e u := (marks_recordIssued s t e u).1
  isRevoked_recordIssued s t e u := (marks_recordIssued s t e u).2
  isConsumed_revoke s t u := by
    rw [isConsumed_eq, isConsumed_eq]
    show (((s.revoke t).row? u).map TokenRow.consumed).getD false = _
    rw [row?_revoke]
    cases s.row? u with
    | none => rfl
    | some r =>
      dsimp only [Option.map_some]
      split <;> rfl
  isRevoked_revoke_ne s t u hne := by
    rw [isRevoked_eq, isRevoked_eq]
    show (((s.revoke t).row? u).map TokenRow.revoked).getD false = _
    rw [row?_revoke]
    cases s.row? u with
    | none => rfl
    | some r => simp [Ne.symm hne]
  purgeExpired_of_none s now u hnone := by
    have hrow : s.row? u = none := Option.map_eq_none_iff.mp hnone
    apply marks_eq
    show ((s.purgeExpired now).2.row? u).map _ = _
    rw [row?_purgeExpired, hrow]
    rfl
  tryConsume_of_live s t e hissued hconsumed hrevoked := by
    obtain ⟨r, hr, _⟩ := Option.map_eq_some_iff.mp hissued
    have hr : s.row? t = some r := hr
    rw [isConsumed_eq, hr] at hconsumed
    rw [isRevoked_eq, hr] at hrevoked
    exact (tryConsume_eq_true_iff s t).mpr ⟨r, hr, hconsumed, hrevoked⟩
  tryConsume_of_isConsumed s t hconsumed := by
    rw [isConsumed_eq] at hconsumed
    show (s.tryConsume t).1 = false
    rw [Bool.eq_false_iff, ne_eq, tryConsume_eq_true_iff]
    intro ⟨r, hr, hunconsumed, _⟩
    rw [hr, Option.map_some, Option.getD_some, hunconsumed] at hconsumed
    cases hconsumed

/-! ## A token between its record and its first use -/

section

variable {C : Type} [CapabilityStateStore C]

/-- What is on record for the token, which has no mark. -/
structure Live (K : String) (record? : Option IssuedEntry) (s : C) : Prop where
  issued : issued? s K = record?
  unconsumed : isConsumed K s = false
  unrevoked : isRevoked K s = false

/-- The call can change the record or the marks of a token with this record. -/
def CapCall.touches (K : String) (record? : Option IssuedEntry) : CapCall → Prop
  | .recordIssued t _ => t = K
  | .tryConsume t => t = K
  | .revoke t => t = K
  | .revokeScope a w c => ∃ e, record? = some e ∧ e.inScope a w c = true
  | .purgeExpired _ => record? ≠ none
  | _ => False

variable [LawfulCapabilityStore C] [ConsumesExactly C] [ScopedRevocation C] [SingleUseStore C]
variable {K : String} {record? : Option IssuedEntry} {o : Oracle} {w : CapWorld C} {s : C}

omit [LawfulCapabilityStore C] [ScopedRevocation C] [SingleUseStore C] in
/-- Consuming another token leaves the mark of this one. -/
theorem isConsumed_tryConsume_ne {t : String} (hne : t ≠ K) (s : C) :
    isConsumed K (tryConsume t s).2 = isConsumed K s := by
  by_cases hconsumed : (tryConsume t s).1 = true
  · rw [ConsumesExactly.isConsumed s t K hconsumed]
    simp [Ne.symm hne]
  · rw [Bool.not_eq_true] at hconsumed
    rw [ConsumesExactly.of_false s t hconsumed]

/-- What does not touch the token leaves it as it is. -/
theorem Live.capHandler (h : Live K record? w.store) {d : CapCall} (hd : ¬ d.touches K record?) :
    Live K record? (capHandler o d w).2.store := by
  obtain ⟨hissued, hconsumed, hrevoked⟩ := h
  cases d with
  | recordIssued t e =>
    refine ⟨?_, ?_, ?_⟩
    · exact (LawfulCapabilityStore.issued?_recordIssued_ne _ t e K hd).trans hissued
    · exact (SingleUseStore.isConsumed_recordIssued _ _ _ _).trans hconsumed
    · exact (SingleUseStore.isRevoked_recordIssued _ _ _ _).trans hrevoked
  | tryConsume t =>
    refine ⟨?_, ?_, ?_⟩
    · exact (ConsumesExactly.issued? _ _ _).trans hissued
    · exact (isConsumed_tryConsume_ne hd w.store).trans hconsumed
    · exact (ConsumesExactly.isRevoked _ _ _).trans hrevoked
  | revoke t =>
    refine ⟨?_, ?_, ?_⟩
    · exact (LawfulCapabilityStore.issued?_revoke _ _ _).trans hissued
    · exact (SingleUseStore.isConsumed_revoke _ _ _).trans hconsumed
    · exact (SingleUseStore.isRevoked_revoke_ne _ _ _ hd).trans hrevoked
  | revokeScope a wf c =>
    refine ⟨?_, ?_, ?_⟩
    · exact (ScopedRevocation.issued?_revokeScope _ _ _ _ _).trans hissued
    · exact (ScopedRevocation.isConsumed_revokeScope _ _ _ _ _).trans hconsumed
    · refine (ScopedRevocation.isRevoked_revokeScope _ _ _ _ _ fun e he => ?_).trans hrevoked
      rw [Bool.eq_false_iff]
      exact fun hscope => hd ⟨e, hissued.symm.trans he, hscope⟩
  | purgeExpired now =>
    have hnone : record? = none := not_not.mp hd
    rw [hnone] at hissued ⊢
    obtain ⟨hkept, hkept'⟩ := SingleUseStore.purgeExpired_of_none w.store now K hissued
    refine ⟨?_, hkept.trans hconsumed, hkept'.trans hrevoked⟩
    show issued? (purgeExpired now w.store).2 K = none
    rw [LawfulCapabilityStore.issued?_purgeExpired, hissued]
    rfl
  | _ => exact ⟨hissued, hconsumed, hrevoked⟩

omit [ConsumesExactly C] [ScopedRevocation C] in
/-- A new token is on record, without a mark. -/
theorem Live.recordIssued (h : Live K none s) (entry : IssuedEntry) :
    Live K (some entry) (recordIssued K entry s) := by
  refine ⟨?_, (SingleUseStore.isConsumed_recordIssued _ _ _ _).trans h.unconsumed,
    (SingleUseStore.isRevoked_recordIssued _ _ _ _).trans h.unrevoked⟩
  rcases LawfulCapabilityStore.issued?_recordIssued_self s K entry with hnew | ⟨hsome, _⟩
  · exact hnew
  · rw [h.issued] at hsome
    cases hsome

omit [LawfulCapabilityStore C] in
/-- A token stays consumed until a purge. -/
theorem isConsumed_capHandler (h : isConsumed K w.store = true) {d : CapCall}
    (hd : ∀ now, d ≠ .purgeExpired now) : isConsumed K (capHandler o d w).2.store = true := by
  cases d with
  | recordIssued t e => exact (SingleUseStore.isConsumed_recordIssued _ _ _ _).trans h
  | tryConsume t =>
    show isConsumed K (tryConsume t w.store).2 = true
    by_cases hconsumed : (tryConsume t w.store).1 = true
    · rw [ConsumesExactly.isConsumed _ _ _ hconsumed, h, Bool.or_true]
    · rw [Bool.not_eq_true] at hconsumed
      rw [ConsumesExactly.of_false _ _ hconsumed]
      exact h
  | revoke t => exact (SingleUseStore.isConsumed_revoke _ _ _).trans h
  | revokeScope a wf c => exact (ScopedRevocation.isConsumed_revokeScope _ _ _ _ _).trans h
  | purgeExpired now => exact absurd rfl (hd now)
  | _ => exact h

end

/-! ## Presenting a token -/

section

variable {P : Primitives} {svc : CapabilityService P} {o : Oracle} {t : CapabilityToken}
variable {action : Action} {C : Type} [CapabilityStateStore C] {w : CapWorld C}

/-- A verification that finds all in order consumes the token and accepts. -/
theorem run_verifyForAction_of_covers (hcovers : Covers svc t action (o.time w.reads) w.store)
    (hsingle : t.singleUse = true) (hconsumes : (tryConsume t.tokenId w.store).1 = true) :
    (svc.verifyForAction t action).run (capHandler o) w =
      (.ok (accept t), ⟨(tryConsume t.tokenId w.store).2, w.reads + 1, w.draws⟩) := by
  rcases run_verifyForAction svc o t action w with ⟨_, hrun⟩ | ⟨hnot, _⟩
  · rw [hrun]
    unfold consumeGate
    simp only [hsingle, if_true, perform_bind, run_call, capHandler, hconsumes]
    rfl
  · exact absurd hcovers hnot

/-- A consumed token is refused, whatever else is wrong with it. -/
theorem run_verifyForAction_of_consumed [SingleUseStore C]
    (hsigned : svc.signatureValid t = .ok true)
    {d : DateTime} (hd : t.expiresAt = isoformat d) (hscope : scopeRefusal t action = .ok none)
    (hsingle : t.singleUse = true) (hconsumed : isConsumed t.tokenId w.store = true) :
    ∃ reason, ((svc.verifyForAction t action).run (capHandler o) w).1 = .ok (refuse t reason) := by
  have hlost : (tryConsume t.tokenId w.store).1 = false :=
    SingleUseStore.tryConsume_of_isConsumed _ _ hconsumed
  unfold verifyForAction consumeGate
  simp only [hsigned, ofExcept_ok, done_bind, if_true, perform_bind, run_call, capHandler]
  by_cases hrevoked : isRevoked t.tokenId w.store = true
  · simp only [hrevoked, if_true]
    exact ⟨_, rfl⟩
  rw [Bool.not_eq_true] at hrevoked
  simp only [hrevoked, Bool.false_eq_true, if_false, hd, fromisoformat_isoformat, run_call,
    capHandler]
  by_cases hexpired : d ≤ o.time w.reads
  · simp only [hasExpired, hexpired, if_true, decide_true, ofExcept_ok, done_bind]
    exact ⟨_, rfl⟩
  simp only [hasExpired, hexpired, if_true, decide_false, ofExcept_ok, done_bind,
    Bool.false_eq_true, if_false, hscope, hsingle, run_call, capHandler, hlost]
  by_cases hagain : isRevoked t.tokenId (tryConsume t.tokenId w.store).2 = true
  · simp only [hagain, if_true]
    exact ⟨_, rfl⟩
  · simp only [hagain]
    exact ⟨_, rfl⟩

end

section

variable {P : Primitives} {F : Type} [Arithmetic F] {cp : ControlPlane P F} {o : Oracle}
variable {S C L : Type} [Store S] [CapabilityStateStore C] [AuditLog L]
variable {y : CpTurn F S C L} {t : CapabilityToken} {action : Action}
variable {outcome : Except String PyVal}

/-- The answer to an execution whose action has run. -/
def executed (F : Type) (t : CapabilityToken) : Except String PyVal → Except PyError (Answer F)
  | .ok output =>
      .ok (.execution ⟨true, "executed under valid capability", some t.tokenId, output⟩)
  | .error message => .error (.actionError message)

/-- The turn runs the action and answers with its outcome. -/
structure Invokes (y : CpTurn F S C L) (i : Invocation) (outcome : Except String PyVal) :
    Prop where
  invoked : ⟨.invoke i, ()⟩ ∈ y.calls
  result : y.result = executed F i.token outcome

/-- The turn answers that it refuses the token, and runs no action. -/
structure Rejects (y : CpTurn F S C L) (t : CapabilityToken) : Prop where
  idle : ∀ i, ⟨.invoke i, ()⟩ ∉ y.calls
  result : ∃ reason, y.result = .ok (.execution ⟨false, reason, some t.tokenId, .none⟩)

/-- An accepted token lets the action run. -/
theorem invokes_of_accepted (hserve : y = (cp.system o).serve y.before y.request)
    (hreq : y.request.2 = .execute (some t) action outcome) {v : CapWorld C}
    (hrun : (cp.capabilityService.verifyForAction t action).run (capHandler o) (capView y.before) =
      (.ok (accept t), v)) :
    Invokes y ⟨t, action.agentId, action.workflowId, action.authorityClass⟩ outcome ∧
      y.after.capability = v.store := by
  obtain ⟨before, ⟨replica, cmd⟩, calls, result, after⟩ := y
  obtain rfl : cmd = _ := hreq
  have hverified : (liftCap (cp.capabilityService.verifyForAction t action)).run
      (worldHandler o cp.ledgerKeys replica) before = (.ok (accept t), onCap v before) := by
    rw [run_liftCap, hrun]
  let inv : Invocation := ⟨t, action.agentId, action.workflowId, action.authorityClass⟩
  have hexecute : (cp.capabilityService.execute (some t) action outcome).run
      (worldHandler o cp.ledgerKeys replica) before =
        (match outcome with
          | .ok output =>
              .ok ⟨true, "executed under valid capability", some t.tokenId, output⟩
          | .error message => .error (.actionError message), onCap v before) := by
    show (liftCap _ >>= _).run _ _ = _
    rw [run_bind, hverified]
    cases outcome <;> rfl
  have hmakes : (cp.body (.execute (some t) action outcome)).Makes
      (worldHandler o cp.ledgerKeys replica) (· = .invoke inv) before := by
    show ((liftCap _ >>= _) >>= _).Makes _ _ _
    rw [makes_bind]
    refine Or.inl ?_
    rw [makes_bind]
    exact Or.inr ⟨_, _, hverified, makes_call.mpr (Or.inl rfl)⟩
  have hbody : (cp.body (.execute (some t) action outcome)).run
      (worldHandler o cp.ledgerKeys replica) before = (executed F t outcome, onCap v before) := by
    show (cp.capabilityService.execute _ _ _ >>= _).run _ _ = _
    rw [run_bind, hexecute]
    cases outcome <;> rfl
  refine ⟨⟨?_, ?_⟩, ?_⟩
  · obtain ⟨⟨op, answer⟩, hmem, rfl⟩ := hmakes
    rw [hserve]
    exact hmem
  · rw [hserve]
    exact congrArg Prod.fst hbody
  · rw [hserve]
    exact congrArg (fun r => World.capability (Prod.snd r)) hbody

/-- A refused token lets no action run. -/
theorem rejects_of_refused (hserve : y = (cp.system o).serve y.before y.request)
    (hreq : y.request.2 = .execute (some t) action outcome) {reason : PyStr}
    (hrun : ((cp.capabilityService.verifyForAction t action).run (capHandler o)
      (capView y.before)).1 = .ok (refuse t reason)) : Rejects y t := by
  obtain ⟨before, ⟨replica, cmd⟩, calls, result, after⟩ := y
  obtain rfl : cmd = _ := hreq
  have hverified : ∃ s, (liftCap (cp.capabilityService.verifyForAction t action)).run
      (worldHandler o cp.ledgerKeys replica) before = (.ok (refuse t reason), s) := by
    rw [run_liftCap, hrun]
    exact ⟨_, rfl⟩
  obtain ⟨s, hverified⟩ := hverified
  have hexecute : (cp.capabilityService.execute (some t) action outcome).run
      (worldHandler o cp.ledgerKeys replica) before =
        (.ok ⟨false, reason, some t.tokenId, .none⟩, s) := by
    show (liftCap _ >>= _).run _ _ = _
    rw [run_bind, hverified]
    rfl
  constructor
  · intro i hi
    have hmakes : (cp.body (.execute (some t) action outcome)).Makes
        (worldHandler o cp.ledgerKeys replica) (· = .invoke i) before := by
      rw [hserve] at hi
      exact ⟨_, hi, rfl⟩
    have hmakes : ((liftCap (cp.capabilityService.verifyForAction t action) >>= _) >>= _).Makes
        (worldHandler o cp.ledgerKeys replica) (· = .invoke i) before := hmakes
    rw [makes_bind, makes_bind] at hmakes
    rcases hmakes with (hverify | ⟨r, _, hr, hlater⟩) | ⟨_, _, _, hlast⟩
    · refine not_makes_of_uses (uses_verify (A := fun op => op ≠ .invoke i) ?_ ?_) ?_ hverify
      · rintro op hplain _ rfl
        cases hplain
      · exact fun h => nomatch h
      · exact fun op hne heq => hne heq
    · rw [hverified] at hr
      cases hr
      exact makes_done hlater
    · exact makes_done hlast
  · have hbody : (cp.body (.execute (some t) action outcome)).run
        (worldHandler o cp.ledgerKeys replica) before =
          (.ok (.execution ⟨false, reason, some t.tokenId, .none⟩), s) := by
      show (cp.capabilityService.execute _ _ _ >>= _).run _ _ = _
      rw [run_bind, hexecute]
      rfl
    refine ⟨reason, ?_⟩
    rw [hserve]
    exact congrArg Prod.fst hbody

end

/-! ## The token of a proposal -/

section

variable {P : Primitives} {F : Type} [Arithmetic F] {cp : ControlPlane P F} {o : Oracle}
variable {S C L : Type} [Store S] [CapabilityStateStore C] [AuditLog L]
variable {x y : CpTurn F S C L} {e e' : WorkflowEvent} {p : Packet} {t : CapabilityToken}

/-- What the token of an answered proposal carries. -/
structure GrantedFor (svc : CapabilityService P) (e : WorkflowEvent) (p : Packet)
    (t : CapabilityToken) : Prop where
  event : p.event = withApprovedWorkflows e p.agent
  signature : svc.signatureValid t = .ok true
  expires : ∃ d, t.expiresAt = isoformat d
  agentId : t.agentId = e.agentId
  workflowId : t.workflowId = e.workflowId
  authorityClass : t.authorityClass = e.authorityRequested
  rank : t.maxConsequenceRank = consequenceRank e.authorityRequested
  conditions : t.conditions = (p.matchingRule.map DelegationRule.conditions).getD []
  single : t.singleUse = true
  matched : ∀ r, p.matchingRule = some r → r.matchesEvent e = .ok true

/-- The calls of an answered proposal with a token: up to its record and after it, none touches
a token. -/
theorem Accepted.calls_eq (hacc : Accepted x e p)
    (hserve : x = (cp.system o).serve x.before x.request) (ht : p.token = some t) :
    ∃ front back, x.calls = front ++ ⟨.cap (.recordIssued t.tokenId (entryOf t)), ()⟩ :: back ∧
      (∀ d ∈ front, d.1.leavesTokens = true) ∧ (∀ d ∈ back, d.1.leavesTokens = true) ∧
      ⟨.matchingRule e, .ok p.matchingRule⟩ ∈ x.calls ∧ Assessed cp e p ∧
      ∃ now expires id nonce payload,
        (cp.capabilityService.unsignedToken
            (cp.grantFor p.event p.matchingRule p.decision.status) now expires id
            nonce).signingPayload = .ok payload ∧
        t = { cp.capabilityService.unsignedToken
            (cp.grantFor p.event p.matchingRule p.decision.status) now expires id nonce with
          signature := some (cp.capabilityService.keys.sign payload) } := by
  have hfollows : Follows ((cp.system (S := S) (C := C) (L := L) o).body x.request) x.calls
      (ofExcept x.result) := by
    rw [hserve]
    exact follows_serve _ _ _
  have hp' := hacc.follows hfollows
  obtain ⟨before, ⟨replica, cmd⟩, calls, result, after⟩ := x
  obtain ⟨rfl, rfl⟩ := hacc
  obtain ⟨first, minted, r, hauth, hassessed, hgranted, rfl⟩ := follows_proposeEvent_done hp'
  rcases hgranted with ⟨_, hnone, _⟩ | ⟨_, u, hu, hmint⟩
  · rw [hnone] at ht
    cases ht
  obtain rfl : u = t := Option.some.inj (hu.symm.trans ht)
  obtain ⟨now, expires, id, nonce, payload, _, hpayload, hfields, rfl⟩ := follows_mint_done hmint
  have hfirst : ∀ d ∈ first, d.1.leavesTokens = true :=
    hauth.uses_calls (A := fun d => d.leavesTokens = true)
      (uses_authenticate (fun _ hd _ => leavesTokens_of_plain hd) fun _ _ => rfl)
  refine ⟨first ++ (readingCalls e p ++ capCalls [⟨.utcNow, now⟩, ⟨.uuid4, id⟩, ⟨.uuid4, nonce⟩]),
    recordingCalls p r, ?_, ?_, ?_, ?_, hassessed, now, expires, id, nonce, payload, hpayload,
    hfields⟩
  · simp [capCalls]
  · intro d hd
    rcases List.mem_append.mp hd with hd | hd
    · exact hfirst d hd
    · simp only [readingCalls, capCalls, List.map_cons, List.map_nil, List.cons_append,
        List.nil_append, List.mem_cons, List.not_mem_nil, or_false] at hd
      rcases hd with rfl | rfl | rfl | rfl | rfl | rfl | rfl <;> rfl
  · intro d hd
    simp only [recordingCalls, List.mem_cons, List.not_mem_nil, or_false] at hd
    rcases hd with rfl | rfl <;> rfl
  · simp [readingCalls]

/-- The token of an answered proposal is signed, expires at a time, and grants what the matching
rule allows. -/
theorem Accepted.grantedFor [LawfulStore S] (hacc : Accepted x e p)
    (hserve : x = (cp.system o).serve x.before x.request) (ht : p.token = some t) :
    GrantedFor cp.capabilityService e p t := by
  obtain ⟨front, back, hcalls, _, _, hmatching, hassessed, now, expires, id, nonce, payload,
    hpayload, rfl⟩ := hacc.calls_eq hserve ht
  have hevent := hassessed.event
  refine ⟨hevent, ?_, ⟨expires, rfl⟩, ?_, ?_, ?_, ?_, ?_, rfl, ?_⟩
  · exact signatureValid_eq_true_iff.mpr ⟨_, payload, rfl, hpayload, KeyPair.verify_sign _ _⟩
  · show p.event.agentId = _
    rw [hevent]
    rfl
  · show p.event.workflowId = _
    rw [hevent]
    rfl
  · show p.event.authorityRequested = _
    rw [hevent]
    rfl
  · show ((consequenceRank p.event.authorityRequested : Nat) : Int) = _
    rw [hevent]
    rfl
  · cases p.matchingRule <;> rfl
  · intro r hr
    rw [hr] at hmatching
    obtain ⟨before', after', hsplit⟩ := List.append_of_mem hmatching
    have hanswers : Answers ((cp.system o).handler x.request) x.before x.calls x.after := by
      rw [hserve]
      exact answers_serve _ _ _
    rw [hsplit] at hanswers
    obtain ⟨s, _, hfound, _⟩ := answers_append.mp hanswers
    exact (LawfulStore.matchingRule_some e s.store r hfound).2

/-- A number is not below itself. -/
theorem lt_self (n : Int) : (PyVal.int n).lt (.int n) = .ok false := by
  have hself : ¬ Dyadic.ofIntWithPrec n 0 < Dyadic.ofIntWithPrec n 0 := Std.lt_irrefl
  show Except.ok (decide _) = _
  rw [decide_eq_false hself]

/-- A token covers what the client makes of the packet. -/
theorem GrantedFor.scopeRefusal {svc : CapabilityService P} (h : GrantedFor svc e p t)
    (hleft : EventLeft e p e') (hmetadata : Unreserved e.metadata)
    (hrule : ∀ r, p.matchingRule = some r → Unreserved r.conditions) :
    scopeRefusal t ⟨e.agentId, e'.workflowId, e'.authorityRequested,
      AgentClient.actionContext e' none⟩ = .ok none := by
  obtain ⟨hworkflow, hclass, _⟩ := hleft.fields h.event
  have hconditions : conditionFailure t.conditions (AgentClient.actionContext e' none) =
      .ok none := by
    rw [h.conditions]
    cases hr : p.matchingRule with
    | none => rfl
    | some r =>
      obtain ⟨_, _, _, _, hmet⟩ := DelegationRule.matchesEvent_eq_true_iff.mp (h.matched r hr)
      exact (conditionFailure_actionContext hleft h.event (hrule r hr)).trans hmet
  apply scopeRefusal_eq_none_iff.mpr
  refine ⟨h.agentId.symm, hworkflow.trans h.workflowId.symm,
    hclass.trans h.authorityClass.symm, ?_, hconditions⟩
  unfold rankExceeded
  rw [get?_rank_actionContext hleft h.event hmetadata, h.rank]
  exact lt_self _

end

/-! ## The token from turn to turn -/

section

variable {P : Primitives} {F : Type} [Arithmetic F] {cp : ControlPlane P F} {o : Oracle}
variable {S C L : Type} [Store S] [CapabilityStateStore C] [AuditLog L]
variable {x y : CpTurn F S C L} {e : WorkflowEvent} {p : Packet} {t : CapabilityToken}
variable {K : String} {record? : Option IssuedEntry} {turns : List (CpTurn F S C L)}
variable {s : World S C L}

/-- The call of the capability service is among those of the turn. -/
def CallsCap (y : CpTurn F S C L) (d : CapCall) : Prop := ∃ r, ⟨.cap d, r⟩ ∈ y.calls

/-- A call of the capability service that is no reading is one of the command's own. -/
theorem CallsCap.plain_or_own {d : CapCall} (h : CallsCap y d)
    (hserve : y = (cp.system o).serve y.before y.request) :
    (Call.cap d).plain = true ∨ cp.ownCall y.request.2 (.cap d) := by
  obtain ⟨r, hr⟩ := h
  have hfollows : Follows (cp.body y.request.2) y.calls (ofExcept y.result) := by
    rw [hserve]
    exact (cp.system (S := S) (C := C) (L := L) o).follows_serve _ _
  exact follows_body_call hfollows hr

/-- A token is put on record in one turn only. -/
theorem eq_of_recordIssued (hfresh : o.Fresh)
    (h : (cp.system o).Runs (World.initial S C L) turns s) {i j : Nat} (hi : turns[i]? = some x)
    (hj : turns[j]? = some y) {entry entry' : IssuedEntry}
    (hx : CallsCap x (.recordIssued K entry)) (hy : CallsCap y (.recordIssued K entry')) :
    i = j := by
  obtain ⟨q, hq, _, _, hcalls⟩ := h.leads (p := fresh _) .refl rfl
  have hlog : ∀ k (z : CpTurn F S C L) e, turns[k]? = some z → CallsCap z (.recordIssued K e) →
      ⟨k, .cap (.recordIssued K e), ()⟩ ∈ q.log := by
    intro k z e hk ⟨_, hz⟩
    apply mem_calls_iff.mp
    have hsame : calls q.log (0 + k) = z.calls := hcalls k z hk
    rw [Nat.zero_add] at hsame
    rw [hsame]
    exact hz
  exact (eq_of_records hq hfresh (hlog i x entry hi hx) (hlog j y entry' hj hy)).1

section

variable [LawfulCapabilityStore C] [ConsumesExactly C] [ScopedRevocation C] [SingleUseStore C]

/-- A turn without a call that touches the token leaves it as it is. -/
theorem Live.turn (h : Live K record? y.before.capability)
    (hserve : y = (cp.system o).serve y.before y.request)
    (hcalls : ∀ d, CallsCap y d → ¬ d.touches K record?) : Live K record? y.after.capability := by
  have hanswers : Answers ((cp.system o).handler y.request) y.before y.calls y.after := by
    rw [hserve]
    exact answers_serve _ _ _
  refine hanswers.invariant (I := fun s => Live K record? s.capability) (fun c hc s hs => ?_) h
  refine keeps_worldHandler (I := fun v => Live K record? v.store) hs (fun _ _ _ _ hv => hv) ?_
  intro d hd
  obtain ⟨op, r⟩ := c
  subst hd
  exact Live.capHandler (w := capView s) hs (hcalls d ⟨r, hc⟩)

omit [LawfulCapabilityStore C] in
/-- A turn without a purge leaves a consumed token consumed. -/
theorem isConsumed_turn (h : isConsumed K y.before.capability = true)
    (hserve : y = (cp.system o).serve y.before y.request)
    (hcalls : ∀ now, ¬ CallsCap y (.purgeExpired now)) :
    isConsumed K y.after.capability = true := by
  have hanswers : Answers ((cp.system o).handler y.request) y.before y.calls y.after := by
    rw [hserve]
    exact answers_serve _ _ _
  refine hanswers.invariant (I := fun s => isConsumed K s.capability = true)
    (fun c hc s hs => ?_) h
  refine keeps_worldHandler (I := fun v => isConsumed K v.store = true) hs
    (fun _ _ _ _ hv => hv) ?_
  intro d hd
  obtain ⟨op, r⟩ := c
  subst hd
  refine isConsumed_capHandler (w := capView s) hs fun now hnow => ?_
  subst hnow
  exact hcalls now ⟨r, hc⟩

omit [ConsumesExactly C] [ScopedRevocation C] in
/-- The proposal puts its token on record. -/
theorem Accepted.live (hacc : Accepted x e p) (hserve : x = (cp.system o).serve x.before x.request)
    (ht : p.token = some t) (h : Live t.tokenId none x.before.capability) :
    Live t.tokenId (some (entryOf t)) x.after.capability := by
  obtain ⟨front, back, hcalls, hfront, hback, _⟩ := hacc.calls_eq hserve ht
  have hanswers : Answers ((cp.system o).handler x.request) x.before x.calls x.after := by
    rw [hserve]
    exact answers_serve _ _ _
  rw [hcalls] at hanswers
  obtain ⟨s, hs, _, hrest⟩ := answers_append.mp hanswers
  have hsame : ∀ {calls} {u u' : World S C L}, (∀ d ∈ calls, Call.leavesTokens d.1 = true) →
      Answers ((cp.system o).handler x.request) u calls u' → u'.capability = u.capability := by
    intro calls u u' hleaves hu
    refine hu.invariant (I := fun v => v.capability = u.capability) (fun d hd v hv => ?_) rfl
    exact (capability_worldHandler o cp.ledgerKeys x.request.1 (hleaves d hd) v).1.trans hv
  rw [hsame hback hrest]
  show Live _ _ (recordIssued t.tokenId (entryOf t) s.capability)
  rw [hsame hfront hs]
  exact h.recordIssued _

/-- Nobody has used or revoked the token before turn `j`, and since turn `i` nobody has revoked
its scope or purged. -/
structure Undisturbed (turns : List (CpTurn F S C L)) (t : CapabilityToken) (i j : Nat) :
    Prop where
  unused : ∀ m z, m < j → turns[m]? = some z → ¬ CallsCap z (.tryConsume t.tokenId)
  unrevoked : ∀ m z, m < j → turns[m]? = some z → ¬ CallsCap z (.revoke t.tokenId)
  scope : ∀ m z, i < m → m < j → turns[m]? = some z →
    ¬ CallsCap z (.revokeScope t.agentId t.workflowId t.authorityClass.value)
  unpurged : ∀ m z now, i < m → m < j → turns[m]? = some z → ¬ CallsCap z (.purgeExpired now)

omit [CapabilityStateStore C] [LawfulCapabilityStore C] [ConsumesExactly C] [ScopedRevocation C]
  [SingleUseStore C] [Arithmetic F] [Store S] [AuditLog L] in
/-- The calls that would touch a token, one by one. -/
theorem not_touches (hrecord : ∀ entry, ¬ CallsCap y (.recordIssued K entry))
    (hconsume : ¬ CallsCap y (.tryConsume K)) (hrevoke : ¬ CallsCap y (.revoke K))
    (hscope : ∀ entry, record? = some entry →
      ¬ CallsCap y (.revokeScope entry.agentId entry.workflowId entry.authorityValue))
    (hpurge : record? ≠ none → ∀ now, ¬ CallsCap y (.purgeExpired now)) (d : CapCall)
    (hd : CallsCap y d) : ¬ d.touches K record? := by
  intro htouches
  cases d with
  | recordIssued u entry =>
    obtain rfl : u = K := htouches
    exact hrecord entry hd
  | tryConsume u =>
    obtain rfl : u = K := htouches
    exact hconsume hd
  | revoke u =>
    obtain rfl : u = K := htouches
    exact hrevoke hd
  | revokeScope a w c =>
    obtain ⟨entry, hentry, hin⟩ := htouches
    obtain ⟨⟨rfl, rfl⟩, rfl⟩ : (entry.agentId = a ∧ entry.workflowId = w) ∧
        entry.authorityValue = c := by
      simpa [IssuedEntry.inScope] using hin
    exact hscope entry hentry hd
  | purgeExpired now => exact hpurge htouches now hd
  | _ => exact htouches

/-- An undisturbed token is on record without a mark. -/
theorem live_of_undisturbed (hfresh : o.Fresh)
    (h : (cp.system o).Runs (World.initial S C L) turns s) {i j : Nat} (hi : turns[i]? = some x)
    (hacc : Accepted x e p) (ht : p.token = some t) (hij : i < j) (hj : turns[j]? = some y)
    (hundisturbed : Undisturbed turns t i j) :
    Live t.tokenId (some (entryOf t)) y.before.capability := by
  obtain ⟨hunused, hunrevoked, hscope, hunpurged⟩ := hundisturbed
  have hserve := (h.getElem? hi).2.1
  have hmints : CallsCap x (.recordIssued t.tokenId (entryOf t)) := ⟨(), hacc.mints hserve ht⟩
  -- before its proposal the token is unknown
  have hbefore : Live t.tokenId none x.before.capability := by
    refine h.invariant_upto (I := fun s => Live t.tokenId none s.capability) hi ?_ ?_
    · exact ⟨LawfulCapabilityStore.issued?_empty _, SingleUseStore.isConsumed_empty _,
        SingleUseStore.isRevoked_empty _⟩
    · intro m z hm hz hzserve hlive
      refine hlive.turn hzserve (not_touches (fun entry hd => ?_) (hunused m z (by omega) hz)
        (hunrevoked m z (by omega) hz) (fun _ hnone => nomatch hnone) fun hne => absurd rfl hne)
      have := eq_of_recordIssued hfresh h hi hz hmints hd
      omega
  refine h.invariant_between (I := fun s => Live t.tokenId (some (entryOf t)) s.capability) hij hi
    hj (hacc.live hserve ht hbefore) ?_
  intro m z hm hmj hz hzserve hlive
  refine hlive.turn hzserve (not_touches (fun entry hd => ?_) (hunused m z hmj hz)
    (hunrevoked m z hmj hz) (fun entry hentry => ?_) fun _ now => hunpurged m z now hm hmj hz)
  · have := eq_of_recordIssued hfresh h hi hz hmints hd
    omega
  · cases hentry
    exact hscope m z hm hmj hz

end

end

/-! ## The result -/

section

variable {P : Primitives} {F : Type} [Arithmetic F] {cp : ControlPlane P F} {o : Oracle}
variable {S C L : Type} [Store S] [LawfulStore S] [AuditLog L]
variable [CapabilityStateStore C] [LawfulCapabilityStore C] [ConsumesExactly C]
variable [ScopedRevocation C] [SingleUseStore C]
variable {turns : List (CpTurn F S C L)} {s : World S C L} {x y z : CpTurn F S C L}
variable {c : AgentClient P} {e : WorkflowEvent} {p : Packet} {t : CapabilityToken}
variable {outcome : Except String PyVal}

/-- The turn is what `execute` of the client ends in, with no context beside the event. -/
def ExecutesPacket (c : AgentClient P) (e : WorkflowEvent) (p : Packet)
    (outcome : Except String PyVal) (y : CpTurn F S C L) : Prop :=
  ∃ e', EventLeft e p e' ∧ c.execute e' p.toDict outcome = some y.request.2

omit [Arithmetic F] [Store S] [LawfulStore S] [AuditLog L] [CapabilityStateStore C]
  [LawfulCapabilityStore C] [ConsumesExactly C] [ScopedRevocation C] [SingleUseStore C] in
/-- The client presents the token for an action that it covers. -/
theorem ExecutesPacket.presents (h : ExecutesPacket c e p outcome y)
    (hgranted : GrantedFor cp.capabilityService e p t) (hclient : e.agentId = c.agentId)
    (ht : p.token = some t) (hmetadata : Unreserved e.metadata)
    (hrule : ∀ r, p.matchingRule = some r → Unreserved r.conditions) :
    ∃ action, y.request.2 = .execute (some t) action outcome ∧
      action.agentId = c.agentId ∧ action.workflowId = e.workflowId ∧
      action.authorityClass = e.authorityRequested ∧ scopeRefusal t action = .ok none := by
  obtain ⟨e', hleft, hexecute⟩ := h
  rw [AgentClient.execute_toDict c e' ht, Option.some.injEq] at hexecute
  obtain ⟨hworkflow, hclass, _⟩ := hleft.fields hgranted.event
  refine ⟨_, hexecute.symm, rfl, hworkflow, hclass, ?_⟩
  rw [← hclient]
  exact hgranted.scopeRefusal hleft hmetadata hrule

omit [LawfulStore S] [LawfulCapabilityStore C] [ScopedRevocation C] in
/-- The first execution runs the action. -/
theorem invokes_of_live (hserve : y = (cp.system o).serve y.before y.request)
    (hexecutes : ExecutesPacket c e p outcome y) (hgranted : GrantedFor cp.capabilityService e p t)
    (hclient : e.agentId = c.agentId) (ht : p.token = some t) (hmetadata : Unreserved e.metadata)
    (hrule : ∀ r, p.matchingRule = some r → Unreserved r.conditions)
    (hlive : Live t.tokenId (some (entryOf t)) y.before.capability) {d : DateTime}
    (hd : t.expiresAt = isoformat d) (hintime : o.time y.before.reads < d) :
    Invokes y ⟨t, c.agentId, e.workflowId, e.authorityRequested⟩ outcome ∧
      isConsumed t.tokenId y.after.capability = true := by
  obtain ⟨action, hreq, hagent, hworkflow, hclass, hscope⟩ :=
    hexecutes.presents hgranted hclient ht hmetadata hrule
  have hconsumes : (tryConsume t.tokenId y.before.capability).1 = true :=
    SingleUseStore.tryConsume_of_live _ _ _ hlive.issued hlive.unconsumed hlive.unrevoked
  have hcovers : Covers cp.capabilityService t action (o.time (capView y.before).reads)
      (capView y.before).store := by
    refine ⟨hgranted.signature, hlive.unrevoked, ⟨⟨d, some 0⟩, ?_, ?_⟩, hscope⟩
    · rw [hd, fromisoformat_isoformat]
    · show Except.ok (decide (d ≤ o.time y.before.reads)) = _
      rw [decide_eq_false (not_le.mpr hintime)]
  obtain ⟨hinvokes, hafter⟩ := invokes_of_accepted hserve hreq
    (run_verifyForAction_of_covers hcovers hgranted.single hconsumes)
  rw [hagent, hworkflow, hclass] at hinvokes
  refine ⟨hinvokes, ?_⟩
  rw [hafter]
  show isConsumed t.tokenId (tryConsume t.tokenId y.before.capability).2 = true
  rw [ConsumesExactly.isConsumed _ _ _ hconsumes]
  simp

/-- An issued token is usable.  The token is read back from the packet as it was signed, the rule
and the token check the same metadata, and the client's first execution runs the action, where
the token is not used by others, taken back or late.  Every later one is refused. -/
theorem issued_token_is_usable (hfresh : o.Fresh)
    (h : (cp.system o).Runs (World.initial S C L) turns s) {args : EventArgs} {nonce id : Uuid}
    {now : DateTime} (hbuilt : c.buildEvent args nonce id now = .ok e) {i : Nat}
    (hi : turns[i]? = some x) (hacc : Accepted x e p) (ht : p.token = some t)
    (hmetadata : Unreserved e.metadata)
    (hrule : ∀ r, p.matchingRule = some r → Unreserved r.conditions) :
    (tokenFromDict t.toDict = some t ∧ cp.capabilityService.signatureValid t = .ok true) ∧
    (∀ e' conditions, EventLeft e p e' → Unreserved conditions →
      conditionsMet conditions e.metadata =
        (conditionFailure conditions (AgentClient.actionContext e' none)).map Option.isNone) ∧
    (∀ e' outcome, EventLeft e p e' → ∃ action,
      c.execute e' p.toDict outcome = some (.execute (some t) action outcome)) ∧
    ∀ j y outcome d, i < j → turns[j]? = some y → ExecutesPacket c e p outcome y →
      Undisturbed turns t i j → t.expiresAt = isoformat d → o.time y.before.reads < d →
      Invokes y ⟨t, c.agentId, e.workflowId, e.authorityRequested⟩ outcome ∧
      ∀ k z outcome', j < k → turns[k]? = some z → ExecutesPacket c e p outcome' z →
        (∀ m u now, j < m → m < k → turns[m]? = some u → ¬ CallsCap u (.purgeExpired now)) →
        Rejects z t := by
  have hclient := AgentClient.agentId_of_buildEvent hbuilt
  have hgranted := hacc.grantedFor (h.getElem? hi).2.1 ht
  refine ⟨⟨tokenFromDict_toDict t, hgranted.signature⟩, ?_, ?_, ?_⟩
  · intro e' conditions hleft hunreserved
    rw [conditionsMet_eq, conditionFailure_actionContext hleft hgranted.event hunreserved]
  · intro e' outcome _
    exact ⟨_, AgentClient.execute_toDict c e' ht outcome none⟩
  · intro j y outcome d hij hj hexecutes hundisturbed hd hintime
    have hlive := live_of_undisturbed hfresh h hi hacc ht hij hj hundisturbed
    obtain ⟨hinvokes, hconsumed⟩ := invokes_of_live (h.getElem? hj).2.1 hexecutes hgranted hclient
      ht hmetadata hrule hlive hd hintime
    refine ⟨hinvokes, fun k z outcome' hjk hk hlater hunpurged => ?_⟩
    have hconsumed : isConsumed t.tokenId z.before.capability = true :=
      h.invariant_between (I := fun s => isConsumed t.tokenId s.capability = true) hjk hj hk
        hconsumed fun m u hm hmk hu huserve hbefore =>
          isConsumed_turn hbefore huserve fun now => hunpurged m u now hm hmk hu
    obtain ⟨action, hreq, _, _, _, hscope⟩ :=
      hlater.presents hgranted hclient ht hmetadata hrule
    obtain ⟨reason, hrun⟩ := run_verifyForAction_of_consumed (o := o) (w := capView z.before)
      hgranted.signature hd hscope hgranted.single hconsumed
    exact rejects_of_refused (h.getElem? hk).2.1 hreq hrun

end

/-! ### A client executes twice -/

def demoClient : AgentClient Primitives.named := ⟨"agent", "owner", .ofPrivate _ "key"⟩

/-- The event of the client, for an amount that the rule admits. -/
def clientEvent : Except PyError WorkflowEvent :=
  demoClient.buildEvent {
    workflowId := "claims"
    workflowStage := "review"
    intent := "set the status"
    authority := .modifyInternalRecord
    proposedNextState := "closed"
    expectedEffect := "the record is closed"
    metadata := some [("amount", .int 40)] } ⟨"n", "1"⟩ ⟨"1", ""⟩ (demoHour 12)

/-- The agent may execute under sampling, up to an amount. -/
def boundedDemo : List (Nat × Command) := [
  (0, .registerAgent demoAgent),
  (0, .approveDelegationRule { demoRule .modifyInternalRecord .executeWithSampling with
    conditions := [("amount", .dict [("max", .int 50)])] } "approver" none)]

/-- The client proposes, and executes twice with the packet. -/
def clientDemo (e : WorkflowEvent) (execution : Command) : List (Nat × Command) :=
  boundedDemo ++ (0, .proposeEvent e) :: [(1, execution), (0, execution)]

/-- Five minutes later. -/
def demoExpiry : DateTime := demoMinute 12 5

/-- The packet of the proposal. -/
def clientPacket (e : WorkflowEvent) : Option Packet :=
  match (demoSystem.serve (stateAfter boundedDemo) (0, .proposeEvent e)).result with
  | .ok (.packet p) => some p
  | _ => none

theorem result_of_clientPacket {e : WorkflowEvent} {p : Packet} (h : clientPacket e = some p) :
    (demoSystem.serve (stateAfter boundedDemo) (0, .proposeEvent e)).result =
      .ok (.packet p) := by
  unfold clientPacket at h
  split at h
  · rename_i heq
    rw [heq, Option.some.inj h]
  · cases h

/-- The token of the packet works once. -/
theorem client_executes_once :
    ∃ e p t execution, clientEvent = .ok e ∧ clientPacket e = some p ∧ p.token = some t ∧
      demoClient.execute e p.toDict (.ok .none) = some execution ∧
      let turns := demoSystem.history (World.initial _ _ _) (clientDemo e execution)
      (∃ y, turns[3]? = some y ∧
        Invokes y ⟨t, "agent", "claims", .modifyInternalRecord⟩ (.ok .none)) ∧
      ∃ z, turns[4]? = some z ∧ Rejects z t := by
  -- what the event and the packet are
  have hcomputed : (clientEvent.toOption.any fun e =>
      e.workflowId = "claims" && e.authorityRequested = .modifyInternalRecord &&
        decide (Unreserved e.metadata) && (clientPacket e).any fun p =>
          p.token.any (fun t => t.expiresAt = isoformat demoExpiry) &&
            p.matchingRule.all fun r => decide (Unreserved r.conditions)) = true := by
    decide +kernel
  obtain ⟨e, he, hfields⟩ := (Option.any_eq_true _ _).mp hcomputed
  simp only [Bool.and_eq_true, decide_eq_true_eq] at hfields
  obtain ⟨⟨⟨hworkflow, hclass⟩, hmetadata⟩, hpacket⟩ := hfields
  obtain ⟨p, hp, hfields⟩ := (Option.any_eq_true _ _).mp hpacket
  rw [Bool.and_eq_true] at hfields
  obtain ⟨t, ht, hexpires⟩ := (Option.any_eq_true _ _).mp hfields.1
  have hrule : ∀ r, p.matchingRule = some r → Unreserved r.conditions := by
    intro r hr
    have := hfields.2
    rw [hr] at this
    exact of_decide_eq_true this
  have hbuilt : clientEvent = .ok e := by
    cases hevent : clientEvent with
    | error err =>
      rw [hevent] at he
      cases he
    | ok e' =>
      rw [hevent] at he
      exact congrArg Except.ok (Option.some.inj he)
  obtain ⟨execution, hexecution⟩ : ∃ execution,
      demoClient.execute e p.toDict (.ok .none) = some execution :=
    ⟨_, AgentClient.execute_toDict demoClient e ht (.ok .none) none⟩
  refine ⟨e, p, t, execution, hbuilt, hp, ht, hexecution, ?_⟩
  have hproposal : (demoSystem.history (World.initial _ _ _)
      (clientDemo e execution))[boundedDemo.length]? =
        some (demoSystem.serve (stateAfter boundedDemo) (0, .proposeEvent e)) :=
    getElem?_history_append _ boundedDemo _ _
  have hanswered := result_of_clientPacket hp
  -- the state before the proposal need not be computed
  generalize stateAfter boundedDemo = w₀ at hproposal hanswered
  obtain ⟨_, _, _, husable⟩ := issued_token_is_usable (demoOracle_fresh _) (runs_history _ _)
    hbuilt hproposal ⟨rfl, hanswered⟩ ht hmetadata hrule
  have hquiet : ∀ m z d, m < 3 → (demoSystem.history (World.initial _ _ _)
      (clientDemo e execution))[m]? = some z → (Call.cap d).plain = false →
        (∀ u entry, d ≠ .recordIssued u entry) → ¬ CallsCap z d := by
    intro m z d hm hz hplain hrecord hcalls
    have hreq := getElem?_history hz
    rcases hcalls.plain_or_own ((runs_history _ _).getElem? hz).2.1 with h | hown
    · rw [hplain] at h
      cases h
    · obtain rfl | rfl | rfl : m = 0 ∨ m = 1 ∨ m = 2 := by omega
      all_goals
        rw [← Option.some.inj hreq] at hown
        simp [ownCall, hrecord] at hown
  have hundisturbed : Undisturbed (demoSystem.history (World.initial _ _ _)
      (clientDemo e execution)) t boundedDemo.length 3 := by
    have hlength : boundedDemo.length = 2 := rfl
    refine ⟨?_, ?_, ?_, ?_⟩
    · exact fun m z hm hz => hquiet m z _ hm hz rfl fun _ _ h => by cases h
    · exact fun m z hm hz => hquiet m z _ hm hz rfl fun _ _ h => by cases h
    · intro m z hm hm'
      omega
    · intro m z now hm hm'
      omega
  have hintime : demoHour 12 < demoExpiry := by decide +kernel
  obtain ⟨hinvokes, hlater⟩ := husable 3 _ (.ok .none) demoExpiry (by decide) rfl
    ⟨e, Or.inl rfl, hexecution⟩ hundisturbed (of_decide_eq_true hexpires) hintime
  refine ⟨⟨_, rfl, ?_⟩, ⟨_, rfl, ?_⟩⟩
  · rw [hworkflow, hclass] at hinvokes
    exact hinvokes
  · refine hlater 4 _ (.ok .none) (by decide) rfl ⟨e, Or.inl rfl, hexecution⟩ ?_
    intro m u now hm hm'
    omega

end EarnedAutonomy
