import EarnedAutonomy.Core.CapabilityRuns
import EarnedAutonomy.Core.SoundConditions

/-!
# Verification as a decision

What one call of `verify_for_action` accepts, and what it leaves of the state.

Everything before the last gate is a reading (`run_verifyForAction`), so a refusal or an error
there leaves the state.  The gate consumes a single-use token or does nothing, and a backend
changes nothing but the mark of that token (`ConsumesExactly`).

`verification_is_exact_iff` compares the decision with its list of checks.  They differ on one
input: a `consequence_rank` that is a `nan` is not above the token's rank and not at most it.
-/

namespace EarnedAutonomy

open Atomic Prog Calendar OrderedDict CapabilityStateStore CapabilityService

/-! ## Consuming -/

/-- What a backend does to consume a token: it fails and leaves the state, or marks that token
and nothing else. -/
class ConsumesExactly (C : Type) [CapabilityStateStore C] : Prop where
  of_false : ∀ (s : C) t, (tryConsume t s).1 = false → (tryConsume t s).2 = s
  issued? : ∀ (s : C) t u, issued? (tryConsume t s).2 u = issued? s u
  isRevoked : ∀ (s : C) t u, isRevoked u (tryConsume t s).2 = isRevoked u s
  isConsumed : ∀ (s : C) t u, (tryConsume t s).1 = true →
    isConsumed u (tryConsume t s).2 = (decide (u = t) || isConsumed u s)

instance : ConsumesExactly InMemoryCapabilityStore where
  of_false s t h := by
    change (s.tryConsume t).2 = s
    have hfalse : (s.tryConsume t).1 = false := h
    unfold InMemoryCapabilityStore.tryConsume at hfalse ⊢
    split
    · rfl
    · rename_i hunmarked
      rw [if_neg hunmarked] at hfalse
      cases hfalse
  issued? := LawfulCapabilityStore.issued?_tryConsume
  isRevoked := LawfulCapabilityStore.isRevoked_tryConsume
  isConsumed s t u h := by
    change decide (u ∈ (s.tryConsume t).2.consumed) = (decide (u = t) || decide (u ∈ s.consumed))
    have htrue : (s.tryConsume t).1 = true := h
    unfold InMemoryCapabilityStore.tryConsume at htrue ⊢
    split
    · rename_i hmarked
      rw [if_pos hmarked] at htrue
      cases htrue
    · simp [List.mem_cons]

open SqlCapabilityStore in
/-- An `UPDATE` that changes no row there is leaves the table. -/
theorem SqlCapabilityStore.update_eq_self {s : SqlCapabilityStore}
    {f : String → TokenRow → TokenRow} (h : ∀ key r, s.row? key = some r → f key r = r) :
    s.update f = s := by
  have hrows : s.rows.map (fun r => (r.1, f r.1 r.2)) = s.rows := by
    refine (List.map_congr_left fun r hr => ?_).trans (List.map_id _)
    have hfound : s.row? r.1 = some r.2 := (Dict.get?_eq_some_iff s.nodup).mpr hr
    rw [h r.1 r.2 hfound]
    rfl
  cases s
  simp only [update, SqlCapabilityStore.mk.injEq]
  exact hrows

open SqlCapabilityStore in
instance : ConsumesExactly SqlCapabilityStore where
  of_false s t h := by
    have hmarked : ¬ ∃ r, s.row? t = some r ∧ r.consumed = false ∧ r.revoked = false := by
      rw [← tryConsume_eq_true_iff, show (s.tryConsume t).1 = false from h]
      exact Bool.false_ne_true
    refine @update_eq_self s (fun key r => if decide (key = t) && !r.consumed && !r.revoked then
      { r with consumed := true } else r) fun key r hr => ?_
    split
    · rename_i hit
      simp only [Bool.and_eq_true, decide_eq_true_eq, Bool.not_eq_true'] at hit
      obtain ⟨⟨rfl, hconsumed⟩, hrevoked⟩ := hit
      exact absurd ⟨r, hr, hconsumed, hrevoked⟩ hmarked
    · rfl
  issued? := LawfulCapabilityStore.issued?_tryConsume
  isRevoked := LawfulCapabilityStore.isRevoked_tryConsume
  isConsumed s t u h := by
    obtain ⟨r, hr, hconsumed, hrevoked⟩ := (s.tryConsume_eq_true_iff t).mp h
    rw [isConsumed_eq, isConsumed_eq, show CapabilityStateStore.tryConsume t s = s.tryConsume t
      from rfl, row?_tryConsume]
    by_cases hself : u = t
    · subst hself
      simp [hr, hconsumed, hrevoked]
    · cases s.row? u with
      | none => simp [hself]
      | some r => simp [hself]

/-! ## The checks before the gate -/

section

variable {P : Primitives} (svc : CapabilityService P) (o : Oracle)

/-- The readings of a verification at a time admit the action. -/
structure Covers {C : Type} [CapabilityStateStore C] (t : CapabilityToken) (action : Action)
    (now : DateTime) (s : C) : Prop where
  signature : svc.signatureValid t = .ok true
  unrevoked : isRevoked t.tokenId s = false
  inTime : ∃ expires, fromisoformat t.expiresAt = some expires ∧
    hasExpired now expires = .ok false
  scope : scopeRefusal t action = .ok none

/-- The call accepts. -/
def Accepts {σ : Type} (run : Except PyError VerificationResult × σ) : Prop :=
  ∃ r, run.1 = .ok r ∧ r.ok = true

variable {C : Type} [CapabilityStateStore C] {t : CapabilityToken} {action : Action}
variable {w : CapWorld C}

theorem not_accepts_refuse {σ : Type} (reason : PyStr) (s : σ) :
    ¬ Accepts ((.ok (refuse t reason), s) : Except PyError VerificationResult × σ) := by
  rintro ⟨r, hr, hok⟩
  cases hr
  cases hok

theorem not_accepts_error {σ : Type} (err : PyError) (s : σ) :
    ¬ Accepts ((.error err, s) : Except PyError VerificationResult × σ) := by
  rintro ⟨r, hr, _⟩
  cases hr

/-- Up to the gate a verification only reads: it goes on to the gate, or ends without accepting
and with the state as it was. -/
theorem run_verifyForAction (t : CapabilityToken) (action : Action) (w : CapWorld C) :
    (Covers svc t action (o.time w.reads) w.store ∧
      (svc.verifyForAction t action).run (capHandler o) w =
        (consumeGate t).run (capHandler o) { w with reads := w.reads + 1 }) ∨
    (¬ Covers svc t action (o.time w.reads) w.store ∧
      ¬ Accepts ((svc.verifyForAction t action).run (capHandler o) w) ∧
      ((svc.verifyForAction t action).run (capHandler o) w).2.store = w.store) := by
  unfold verifyForAction
  cases hsig : svc.signatureValid t with
  | error err =>
    refine Or.inr ⟨fun h => ?_, not_accepts_error err _, rfl⟩
    rw [h.signature] at hsig
    cases hsig
  | ok valid =>
    cases valid with
    | false =>
      refine Or.inr ⟨fun h => ?_, not_accepts_refuse _ _, rfl⟩
      rw [h.signature] at hsig
      cases hsig
    | true =>
      simp only [ofExcept_ok, done_bind, if_true, perform_bind, run_call, capHandler]
      by_cases hrevoked : isRevoked t.tokenId w.store = true
      · simp only [hrevoked, if_true]
        refine Or.inr ⟨fun h => ?_, not_accepts_refuse _ _, rfl⟩
        rw [h.unrevoked] at hrevoked
        cases hrevoked
      · rw [Bool.not_eq_true] at hrevoked
        simp only [hrevoked, Bool.false_eq_true, if_false]
        cases hexpires : fromisoformat t.expiresAt with
        | none =>
          refine Or.inr ⟨fun h => ?_, not_accepts_refuse _ _, rfl⟩
          obtain ⟨expires, hfound, _⟩ := h.inTime
          rw [hexpires] at hfound
          cases hfound
        | some expires =>
          simp only [run_call, capHandler]
          have htime : Covers svc t action (o.time w.reads) w.store →
              hasExpired (o.time w.reads) expires = .ok false := by
            intro h
            obtain ⟨_, hfound, hnow⟩ := h.inTime
            rw [hexpires] at hfound
            cases hfound
            exact hnow
          cases hnow : hasExpired (o.time w.reads) expires with
          | error err =>
            refine Or.inr ⟨fun h => ?_, not_accepts_error err _, rfl⟩
            have := htime h
            rw [hnow] at this
            cases this
          | ok expired =>
            cases expired with
            | true =>
              refine Or.inr ⟨fun h => ?_, not_accepts_refuse _ _, rfl⟩
              have := htime h
              rw [hnow] at this
              cases this
            | false =>
              simp only [ofExcept_ok, done_bind, Bool.false_eq_true, if_false]
              cases hscope : scopeRefusal t action with
              | error err =>
                refine Or.inr ⟨fun h => ?_, not_accepts_error err _, rfl⟩
                rw [h.scope] at hscope
                cases hscope
              | ok refusal =>
                cases refusal with
                | some reason =>
                  refine Or.inr ⟨fun h => ?_, not_accepts_refuse _ _, rfl⟩
                  rw [h.scope] at hscope
                  cases hscope
                | none =>
                  exact Or.inl ⟨⟨hsig, hrevoked, ⟨expires, hexpires, hnow⟩, hscope⟩, rfl⟩

/-- The gate: a multi-use token passes, a single-use one when it is consumed. -/
theorem run_consumeGate (t : CapabilityToken) (w : CapWorld C) :
    (t.singleUse = false ∧ (consumeGate t).run (capHandler o) w = (.ok (accept t), w)) ∨
    (t.singleUse = true ∧ (tryConsume t.tokenId w.store).1 = true ∧
      (consumeGate t).run (capHandler o) w =
        (.ok (accept t), { w with store := (tryConsume t.tokenId w.store).2 })) ∨
    (t.singleUse = true ∧ (tryConsume t.tokenId w.store).1 = false ∧
      ¬ Accepts ((consumeGate t).run (capHandler o) w) ∧
      ((consumeGate t).run (capHandler o) w).2.store = (tryConsume t.tokenId w.store).2) := by
  unfold consumeGate
  cases hsingle : t.singleUse with
  | false => exact Or.inl ⟨rfl, rfl⟩
  | true =>
    simp only [if_true, perform_bind, run_call, capHandler]
    by_cases hconsumed : (tryConsume t.tokenId w.store).1 = true
    · simp only [hconsumed, if_true]
      exact Or.inr (Or.inl ⟨trivial, trivial, rfl⟩)
    · rw [Bool.not_eq_true] at hconsumed
      simp only [hconsumed, Bool.false_eq_true, if_false, run_call, capHandler]
      refine Or.inr (Or.inr ⟨trivial, trivial, ?_⟩)
      by_cases hrevoked : isRevoked t.tokenId (tryConsume t.tokenId w.store).2 = true
      · simp only [hrevoked, if_true]
        exact ⟨not_accepts_refuse _ _, rfl⟩
      · rw [Bool.not_eq_true] at hrevoked
        simp only [hrevoked, Bool.false_eq_true, if_false]
        exact ⟨not_accepts_refuse _ _, rfl⟩

end

/-! ## The rank of the action -/

/-- A `consequence_rank` in the context is at most the token's. -/
def RankWithin (t : CapabilityToken) (context : Mapping) : Prop :=
  match (Dict.get? context "consequence_rank").getD .none with
  | .none => True
  | rank => rank.le (.int t.maxConsequenceRank) = .ok true

/-- The `consequence_rank` in the context is a `nan`. -/
def RankIsNan (context : Mapping) : Prop :=
  ∃ i, Dict.get? context "consequence_rank" = some (.float (.nan i))

/-- What is not above the token's rank is at most that, except for a `nan`. -/
theorem rankWithin_iff (t : CapabilityToken) (context : Mapping) :
    RankWithin t context ↔ rankExceeded t context = .ok false ∧ ¬ RankIsNan context := by
  have hexact : ∀ n prec, (PyFloat.exact n prec).isNan = false := fun _ _ => rfl
  -- a number is compared with the token's rank, which is no `nan`
  have hnumber : ∀ {rank : PyVal} {x : PyFloat}, rank.number? = some x →
      (rank.le (.int t.maxConsequenceRank) = .ok true ↔
        (PyVal.int t.maxConsequenceRank).lt rank = .ok false ∧ x.isNan = false) := by
    intro rank x hx
    have hmax : (PyVal.int t.maxConsequenceRank).number? =
        some (.exact t.maxConsequenceRank 0) := rfl
    rw [le_of_number hx hmax, lt_of_number hmax hx, Except.ok.injEq, Except.ok.injEq]
    cases hnan : x.isNan with
    | true =>
      rw [(PyFloat.unordered_of_nan (Or.inl hnan)).2]
      simp
    | false =>
      rw [PyFloat.le_eq_not_lt hnan rfl]
      simp
  unfold RankWithin rankExceeded RankIsNan
  cases hfound : Dict.get? context "consequence_rank" with
  | none => simp
  | some rank =>
    simp only [Option.getD_some, Option.some.injEq]
    cases rank with
    | none => simp
    | bool b => simpa [hexact] using @hnumber (.bool b) _ rfl
    | int n => simpa [hexact] using @hnumber (.int n) _ rfl
    | float x =>
      have hfloat := @hnumber (.float x) x rfl
      cases x <;> simpa [PyFloat.isNan] using hfloat
    | str s => simp [PyVal.le, PyVal.lt, PyVal.number?]
    | list items => simp [PyVal.le, PyVal.lt, PyVal.number?]
    | tuple items => simp [PyVal.le, PyVal.lt, PyVal.number?]
    | dict entries => simp [PyVal.le, PyVal.lt, PyVal.number?]

/-! ## The decision -/

section

variable {P : Primitives} {C : Type} [CapabilityStateStore C]

/-- The checks of a verification besides that of the rank. -/
structure PassesOthers (svc : CapabilityService P) (t : CapabilityToken) (action : Action)
    (now : DateTime) (s : C) : Prop where
  signature : ∃ signature payload, t.signature = some signature ∧
    t.signingPayload = .ok payload ∧ svc.keys.verify payload signature = true
  unrevoked : isRevoked t.tokenId s = false
  inTime : ∃ expires, fromisoformat t.expiresAt = some expires ∧
    hasExpired now expires = .ok false
  agentId : action.agentId = t.agentId
  workflowId : action.workflowId = t.workflowId
  authorityClass : action.authorityClass = t.authorityClass
  conditions : conditionFailure t.conditions action.context = .ok none
  consumes : t.singleUse = true → (tryConsume t.tokenId s).1 = true

/-- Nothing but the consumed mark of one token differs. -/
structure OnlyConsumes (t : String) (s s' : C) : Prop where
  issued : ∀ u, issued? s' u = issued? s u
  revoked : ∀ u, isRevoked u s' = isRevoked u s
  consumed : ∀ u, isConsumed u s' = (decide (u = t) || isConsumed u s)

/-- The call accepts exactly the grant, and leaves the state but for the mark of a single-use
token that it accepts. -/
structure ExactVerification (svc : CapabilityService P) (o : Oracle) (t : CapabilityToken)
    (action : Action) (w : CapWorld C) : Prop where
  accepts_iff : Accepts ((svc.verifyForAction t action).run (capHandler o) w) ↔
    PassesOthers svc t action (o.time w.reads) w.store ∧ RankWithin t action.context
  single : Accepts ((svc.verifyForAction t action).run (capHandler o) w) → t.singleUse = true →
    OnlyConsumes t.tokenId w.store ((svc.verifyForAction t action).run (capHandler o) w).2.store
  multi : Accepts ((svc.verifyForAction t action).run (capHandler o) w) → t.singleUse = false →
    ((svc.verifyForAction t action).run (capHandler o) w).2.store = w.store
  refused : ¬ Accepts ((svc.verifyForAction t action).run (capHandler o) w) →
    ((svc.verifyForAction t action).run (capHandler o) w).2.store = w.store

variable {svc : CapabilityService P} {o : Oracle} {t : CapabilityToken} {action : Action}
variable {w : CapWorld C}

theorem signatureValid_eq_true_iff :
    svc.signatureValid t = .ok true ↔ ∃ signature payload, t.signature = some signature ∧
      t.signingPayload = .ok payload ∧ svc.keys.verify payload signature = true := by
  unfold signatureValid
  cases t.signature with
  | none => simp
  | some signature =>
    cases t.signingPayload with
    | error err => simp [Bind.bind, Except.bind]
    | ok payload => simp [Bind.bind, Except.bind, pure, Except.pure]

/-- The checks are the readings of the call with its last gate. -/
theorem passesOthers_iff (now : DateTime) (s : C) :
    PassesOthers svc t action now s ∧ rankExceeded t action.context = .ok false ↔
      Covers svc t action now s ∧ (t.singleUse = true → (tryConsume t.tokenId s).1 = true) := by
  constructor
  · rintro ⟨h, hrank⟩
    exact ⟨⟨signatureValid_eq_true_iff.mpr h.signature, h.unrevoked, h.inTime,
      scopeRefusal_eq_none_iff.mpr
        ⟨h.agentId, h.workflowId, h.authorityClass, hrank, h.conditions⟩⟩, h.consumes⟩
  · rintro ⟨h, hconsumes⟩
    obtain ⟨hagent, hworkflow, hclass, hrank, hconditions⟩ :=
      scopeRefusal_eq_none_iff.mp h.scope
    exact ⟨⟨signatureValid_eq_true_iff.mp h.signature, h.unrevoked, h.inTime, hagent, hworkflow,
      hclass, hconditions, hconsumes⟩, hrank⟩

variable (svc o t action w) in
/-- What the call accepts, and what it leaves. -/
theorem verifyForAction_spec [ConsumesExactly C] :
    (Accepts ((svc.verifyForAction t action).run (capHandler o) w) ↔
      PassesOthers svc t action (o.time w.reads) w.store ∧
        rankExceeded t action.context = .ok false) ∧
    (Accepts ((svc.verifyForAction t action).run (capHandler o) w) → t.singleUse = true →
      OnlyConsumes t.tokenId w.store
        ((svc.verifyForAction t action).run (capHandler o) w).2.store) ∧
    (Accepts ((svc.verifyForAction t action).run (capHandler o) w) → t.singleUse = false →
      ((svc.verifyForAction t action).run (capHandler o) w).2.store = w.store) ∧
    (¬ Accepts ((svc.verifyForAction t action).run (capHandler o) w) →
      ((svc.verifyForAction t action).run (capHandler o) w).2.store = w.store) := by
  rw [passesOthers_iff]
  rcases run_verifyForAction svc o t action w with ⟨hcovers, hrun⟩ | ⟨hcovers, hrefused, hstate⟩
  · rw [hrun]
    have haccepts : ∀ {v : CapWorld C}, Accepts ((.ok (accept t), v) :
        Except PyError VerificationResult × CapWorld C) := ⟨_, rfl, rfl⟩
    rcases run_consumeGate o t { w with reads := w.reads + 1 } with ⟨hmulti, hgate⟩ |
      ⟨hsingle, hconsumed, hgate⟩ | ⟨hsingle, hconsumed, hrefused, hstate⟩
    · rw [hgate]
      refine ⟨iff_of_true haccepts ⟨hcovers, fun hsingle => ?_⟩, fun _ hsingle => ?_,
        fun _ _ => rfl, fun hnot => absurd haccepts hnot⟩
      · rw [hmulti] at hsingle
        cases hsingle
      · rw [hmulti] at hsingle
        cases hsingle
    · rw [hgate]
      refine ⟨iff_of_true haccepts ⟨hcovers, fun _ => hconsumed⟩, fun _ _ => ?_,
        fun _ hmulti => ?_, fun hnot => absurd haccepts hnot⟩
      · exact ⟨ConsumesExactly.issued? _ _, ConsumesExactly.isRevoked _ _,
          fun u => ConsumesExactly.isConsumed _ _ u hconsumed⟩
      · rw [hsingle] at hmulti
        cases hmulti
    · refine ⟨iff_of_false hrefused ?_, fun h => absurd h hrefused, fun h => absurd h hrefused,
        fun _ => ?_⟩
      · rintro ⟨_, hconsumes⟩
        rw [hconsumes hsingle] at hconsumed
        cases hconsumed
      · rw [hstate, ConsumesExactly.of_false _ _ hconsumed]
  · exact ⟨iff_of_false hrefused fun h => hcovers h.1, fun h => absurd h hrefused,
      fun h => absurd h hrefused, fun _ => hstate⟩

/-- The call does what is listed unless a `nan` passes for a rank. -/
theorem exactVerification_iff [ConsumesExactly C] :
    ExactVerification svc o t action w ↔
      ¬ (RankIsNan action.context ∧ PassesOthers svc t action (o.time w.reads) w.store) := by
  obtain ⟨haccepts, hsingle, hmulti, hrefused⟩ := verifyForAction_spec svc o t action w
  constructor
  · rintro hexact ⟨hnan, hpasses⟩
    have hunder : rankExceeded t action.context = .ok false := by
      obtain ⟨i, hi⟩ := hnan
      rw [rankExceeded, hi]
      rfl
    obtain ⟨_, hwithin⟩ := hexact.accepts_iff.mp (haccepts.mpr ⟨hpasses, hunder⟩)
    exact ((rankWithin_iff t action.context).mp hwithin).2 hnan
  · intro hnan
    refine ⟨?_, hsingle, hmulti, hrefused⟩
    rw [haccepts, rankWithin_iff]
    constructor
    · rintro ⟨hpasses, hunder⟩
      exact ⟨hpasses, hunder, fun h => hnan ⟨h, hpasses⟩⟩
    · rintro ⟨hpasses, hunder, _⟩
      exact ⟨hpasses, hunder⟩

end

/-- A verification accepts exactly the grant and refuses without effect, on either backend,
unless the context gives a `nan` as the rank of an action that passes everything else. -/
theorem verification_is_exact_iff {P : Primitives} (svc : CapabilityService P) (o : Oracle)
    (t : CapabilityToken) (action : Action) :
    (∀ w : CapWorld InMemoryCapabilityStore, ExactVerification svc o t action w ↔
      ¬ (RankIsNan action.context ∧ PassesOthers svc t action (o.time w.reads) w.store)) ∧
    ∀ w : CapWorld SqlCapabilityStore, ExactVerification svc o t action w ↔
      ¬ (RankIsNan action.context ∧ PassesOthers svc t action (o.time w.reads) w.store) :=
  ⟨fun _ => exactVerification_iff, fun _ => exactVerification_iff⟩

/-- A token that can be used more than once. -/
def multiUseToken : CapabilityToken := { demoToken with singleUse := false }

/-- An action whose rank is a `nan`. -/
def unrankedAction : Action :=
  { demoAction with context := [("consequence_rank", .float (.nan 0))] }

/-- A `nan` is no rank that the token allows, and the call accepts the action. -/
theorem nan_rank_is_accepted :
    Accepts (((demoService 0).verifyForAction multiUseToken unrankedAction).run
        (capHandler (demoOracle fun _ => demoHour 12)) (emptyWorld InMemoryCapabilityStore)) ∧
      ¬ RankWithin multiUseToken unrankedAction.context ∧
      ¬ ExactVerification (demoService 0) (demoOracle fun _ => demoHour 12) multiUseToken
        unrankedAction (emptyWorld InMemoryCapabilityStore) := by
  have haccepts : Accepts (((demoService 0).verifyForAction multiUseToken unrankedAction).run
      (capHandler (demoOracle fun _ => demoHour 12)) (emptyWorld InMemoryCapabilityStore)) := by
    refine ⟨accept multiUseToken, ?_, rfl⟩
    decide +kernel
  have hrank : ¬ RankWithin multiUseToken unrankedAction.context :=
    fun h => ((rankWithin_iff _ _).mp h).2 ⟨0, rfl⟩
  exact ⟨haccepts, hrank, fun hexact => hrank (hexact.accepts_iff.mp haccepts).2⟩

end EarnedAutonomy
