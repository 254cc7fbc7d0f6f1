import EarnedAutonomy.Core.CapabilityHistory

/-!
# Runs of the capability service

Replicas of the capability service on one store, in every interleaving of
their store calls.

* `sql_accepted_at_most_once`: on the database, a single-use token is accepted
  at most once, whatever times the purges are given.
* `revocation_is_final`: on either backend, a verification that starts after a
  revocation refuses the token, as long as purges use the current time.
* `inMemory_accepted_at_most_once`: in memory, a single-use token is accepted
  at most once when no purge drops the mark of a token that can still pass its
  expiry check.  `inMemory_accepted_twice` is a run in which a purge does.
-/

namespace EarnedAutonomy

open Atomic Calendar OrderedDict CapabilityStateStore CapabilityService Service Prog

/-- The state of a deployment of the capability service. -/
abbrev CapPool (C : Type) := Pool PyError (Nat × Request) CapRes Reply (CapWorld C)

/-- Nothing on record, and neither the clock nor the generator was asked. -/
def emptyWorld (C : Type) [CapabilityStateStore C] : CapWorld C := ⟨empty, 0, 0⟩

/-- A finished mint has handed out the token. -/
def Minted {C : Type} (q : CapPool C) (t : CapabilityToken) : Prop :=
  ∃ (k ρ : Nat) (args : MintArgs), q.threads[k]? = some ⟨(ρ, .mint args), .done (.minted t)⟩

/-- Thread `i` is a finished verification that accepted the token. -/
def AcceptedBy {C : Type} (q : CapPool C) (i : Nat) (t : CapabilityToken) : Prop :=
  ∃ ρ action r, q.threads[i]? =
    some ⟨(ρ, .verifyForAction t action), .done (.verified r)⟩ ∧ r.ok = true

/-- No two verifications have accepted the token. -/
def AcceptedAtMostOnce {C : Type} (q : CapPool C) (t : CapabilityToken) : Prop :=
  ∀ i j, AcceptedBy q i t → AcceptedBy q j t → i = j

section

variable {P : Primitives} {C : Type} [CapabilityStateStore C]
variable {svc : Nat → CapabilityService P} {o : Oracle}
variable {G : CapPool C → Move (Nat × Request) → Prop} {q : CapPool C}

/-! ## The log of a run -/

/-- The calls of a run are a history. -/
theorem deployment_history (hq : (deployment svc o).Leads G (fresh (emptyWorld C)) q) :
    CapHistory o (emptyWorld C) q.log q.state :=
  hq.log_induction (I := fun w log => CapHistory o (emptyWorld C) log w)
    (fun _ i _ op _ _ _ _ _ h => h.snoc i op) .nil

/-- A record was made by a mint, with the id the mint drew. -/
theorem exists_mint_of_record (hq : (deployment svc o).Leads G (fresh (emptyWorld C)) q)
    {i : Nat} {t : String} {e : IssuedEntry} (h : ⟨i, .recordIssued t e, ()⟩ ∈ q.log) :
    ∃ ρ args now expires id nonce, request? q i = some (ρ, .mint args) ∧
      calls q.log i = [⟨.utcNow, now⟩, ⟨.uuid4, id⟩, ⟨.uuid4, nonce⟩,
        ⟨.recordIssued t e, ()⟩] ∧
      t = newId "cap" id ∧ e = entryOf ((svc ρ).unsignedToken args now expires id nonce) := by
  obtain ⟨⟨⟨ρ, r⟩, body⟩, hi⟩ := hq.exists_thread h
  obtain ⟨args, now, expires, id, nonce, rfl, hcalls, hid, he⟩ :=
    follows_body_record (hq.follows hi) (mem_calls_iff.mpr h)
  exact ⟨ρ, args, now, expires, id, nonce, request?_eq_some_iff.mpr ⟨_, hi⟩, hcalls, hid, he⟩

/-- Every thread draws the ids it records. -/
theorem deployment_drawsItsIds (hq : (deployment svc o).Leads G (fresh (emptyWorld C)) q) :
    DrawsItsIds q.log where
  drawn i t e h := by
    obtain ⟨ρ, args, now, expires, id, nonce, _, hcalls, hid, _⟩ := exists_mint_of_record hq h
    exact ⟨id, mem_calls_iff.mp (by simp [hcalls]), hid⟩
  once i t := by
    rw [← countP_calls q.log i fun c => records t c.1]
    by_cases hnone : ∀ c ∈ calls q.log i, records t c.1 = false
    · rw [List.countP_eq_zero.mpr fun c hc => by simp [hnone c hc]]
      exact Nat.zero_le 1
    · push Not at hnone
      obtain ⟨⟨op, a⟩, hc, hrec⟩ := hnone
      cases op <;> simp only [records, ne_eq, not_true_eq_false, Bool.not_eq_false] at hrec
      obtain ⟨ρ, args, now, expires, id, nonce, _, hcalls, _⟩ :=
        exists_mint_of_record hq (mem_calls_iff.mp hc)
      rw [hcalls]
      simp only [List.countP_cons, records, List.countP_nil]
      split <;> simp

/-- A token id is recorded at most once, with one entry. -/
theorem entry_eq_of_record (hq : (deployment svc o).Leads G (fresh (emptyWorld C)) q)
    (hfresh : o.Fresh) {i j : Nat} {t : String} {e e' : IssuedEntry}
    (h : ⟨i, .recordIssued t e, ()⟩ ∈ q.log) (h' : ⟨j, .recordIssued t e', ()⟩ ∈ q.log) :
    e = e' := by
  have hone := (deployment_history hq).recorded_le_one hfresh (deployment_drawsItsIds hq) t
  have heq := thread_eq_of_countP_le_one hone h h' (by simp [records]) (by simp [records])
  simp only [Entry.mk.injEq, CapCall.recordIssued.injEq] at heq
  exact heq.2.1.2

/-- A token that has been recorded is not about to be recorded again. -/
theorem not_recorded_again (hq : (deployment svc o).Leads G (fresh (emptyWorld C)) q)
    (hfresh : o.Fresh) {i : Nat} {t : String} {e : IssuedEntry}
    (h : ⟨i, .recordIssued t e, ()⟩ ∈ q.log) {j : Nat} {r : Nat × Request} {e' : IssuedEntry}
    {next : Unit → CapProg Reply} (hj : q.threads[j]? = some ⟨r, .call (.recordIssued t e') next⟩)
    (hG : G q (.advance j)) : False := by
  have hq' := hq.move hG
  have hone := (deployment_history hq').recorded_le_one hfresh (deployment_drawsItsIds hq') t
  have hlog : ((deployment svc o).move q (.advance j)).log =
      q.log ++ [⟨j, .recordIssued t e', ()⟩] := by
    simp only [Service.move, hj]
  have hpos : 0 < q.log.countP fun e => records t e.op :=
    List.countP_pos_iff.mpr ⟨_, h, by simp [records]⟩
  have hagain : List.countP (fun e => records t e.op)
      [(⟨j, .recordIssued t e', ()⟩ : Entry CapRes)] = 1 := by simp [records]
  rw [hlog, List.countP_append] at hone
  omega

/-- The token of a finished mint is on record. -/
theorem Minted.record (hq : (deployment svc o).Leads G (fresh (emptyWorld C)) q)
    {t : CapabilityToken} (ht : Minted q t) :
    ∃ k, ⟨k, .recordIssued t.tokenId (entryOf t), ()⟩ ∈ q.log := by
  obtain ⟨k, ρ, args, hk⟩ := ht
  obtain ⟨t', hpath, heq⟩ := (hq.follows hk).of_map_done
  cases heq
  obtain ⟨_, _, _, _, _, _, _, _, hcalls⟩ := follows_mint_done hpath
  exact ⟨k, mem_calls_iff.mp (by simp [hcalls])⟩

/-- A recorded expiry is a time the clock could show. -/
theorem expiresAt_of_record (hq : (deployment svc o).Leads G (fresh (emptyWorld C)) q)
    {i : Nat} {t : String} {e : IssuedEntry} (h : ⟨i, .recordIssued t e, ()⟩ ∈ q.log) :
    ∃ x, e.expiresAt = isoformat x := by
  obtain ⟨ρ, args, now, expires, id, nonce, _, _, _, rfl⟩ := exists_mint_of_record hq h
  exact ⟨expires, rfl⟩

/-- The calls of an accepted verification. -/
theorem AcceptedBy.calls (hq : (deployment svc o).Leads G (fresh (emptyWorld C)) q)
    {i : Nat} {t : CapabilityToken} (h : AcceptedBy q i t) :
    ∃ expires now, fromisoformat t.expiresAt = some expires ∧
      hasExpired now expires = .ok false ∧
      Service.calls q.log i = ⟨.isRevoked t.tokenId, false⟩ :: ⟨.utcNow, now⟩ ::
        (if t.singleUse then [⟨.tryConsume t.tokenId, true⟩] else []) := by
  obtain ⟨ρ, action, r, hi, hok⟩ := h
  obtain ⟨r', hpath, heq⟩ := (hq.follows hi).of_map_done
  cases heq
  obtain ⟨_, _, hexp⟩ := follows_verifyForAction_ok hpath hok
  exact hexp

/-- Who accepted a single-use token has consumed it. -/
theorem AcceptedBy.consumed (hq : (deployment svc o).Leads G (fresh (emptyWorld C)) q)
    {i : Nat} {t : CapabilityToken} (h : AcceptedBy q i t) (hsingle : t.singleUse = true) :
    ⟨i, .tryConsume t.tokenId, true⟩ ∈ q.log := by
  obtain ⟨expires, now, _, _, hcalls⟩ := h.calls hq
  refine mem_calls_iff.mp ?_
  simp [hcalls, hsingle]

end

/-! ## Single use in the database -/

/-- However the store calls of mints, verifications, revocations and purges
interleave, and whatever times the purges are given, no two verifications
accept one single-use token. -/
theorem sql_accepted_at_most_once {P : Primitives} (svc : Nat → CapabilityService P)
    (o : Oracle) (hfresh : o.Fresh) {q : CapPool SqlCapabilityStore}
    (hq : (deployment svc o).Leads Unguarded (fresh (emptyWorld SqlCapabilityStore)) q)
    {t : CapabilityToken} (hsingle : t.singleUse = true) : AcceptedAtMostOnce q t := by
  intro i j hi hj
  have hhist := deployment_history hq
  have hrecorded := hhist.recorded_le_one hfresh (deployment_drawsItsIds hq) t.tokenId
  have hconsumed := hhist.consumed_le_recorded t.tokenId rfl
  have hone : q.log.countP (consumes t.tokenId) ≤ 1 := by omega
  have heq := thread_eq_of_countP_le_one hone (hi.consumed hq hsingle) (hj.consumed hq hsingle)
    (by simp [consumes]) (by simp [consumes])
  exact congrArg Entry.thread heq

/-! ### A deployment to run

Two replicas with one key, and a token of one minute. -/

def demoService (_ : Nat) : CapabilityService Primitives.named :=
  { keys := KeyPair.ofPrivate _ "k" }

def demoArgs : MintArgs where
  agentId := "agent"
  workflowId := "claims"
  authorityClass := .modifyInternalRecord
  conditions := []
  ttlSeconds := 60
  singleUse := true
  eventId := none

def demoToken : CapabilityToken :=
  { (demoService 0).unsignedToken demoArgs (demoHour 12) (demoMinute 12 1) ⟨"", ""⟩ ⟨"a", ""⟩ with
    signature := some "k" }

def demoAction : Action := ⟨"agent", "claims", .modifyInternalRecord, []⟩

/-- Mint the token in thread 0. -/
def mintDemo : List (Move (Nat × Request)) :=
  .start (0, .mint demoArgs) :: List.replicate 4 (.advance 0)

/-- Two replicas verify the token, one store call after the other. -/
def raceDemo : List (Move (Nat × Request)) :=
  mintDemo ++ [.start (0, .verifyForAction demoToken demoAction),
    .start (1, .verifyForAction demoToken demoAction), .advance 1, .advance 2, .advance 1,
    .advance 2, .advance 2, .advance 1, .advance 1]

/-- The verification that consumed first is the one that accepted. -/
theorem sql_race :
    let q := (deployment demoService (demoOracle fun _ => demoHour 12)).schedule
      (fresh (emptyWorld SqlCapabilityStore)) raceDemo
    AcceptedBy q 2 demoToken ∧ AcceptedAtMostOnce q demoToken := by
  refine ⟨⟨1, demoAction, accept demoToken, rfl, rfl⟩, ?_⟩
  exact sql_accepted_at_most_once demoService _ (demoOracle_fresh _) (leads_unguarded _ _) rfl

/-! ## Revocation is final -/

section

variable {P : Primitives} {C : Type} [CapabilityStateStore C]
variable {svc : Nat → CapabilityService P} {o : Oracle} {q : CapPool C}

/-- A purge is started with the current time: without an argument, with an
empty one, or with a time that was read from the clock. -/
def CurrentPurge (o : Oracle) (p : CapPool C) (m : Move (Nat × Request)) : Prop :=
  ∀ ρ now, m = .start (ρ, .purgeExpired (some now)) →
    now = "" ∨ ∃ k < p.state.reads, now = isoformat (o.time k)

/-- The call takes the authority of the token back. -/
def Revokes (t : CapabilityToken) (op : CapCall) : Prop :=
  op = .revoke t.tokenId ∨ op = .revokeScope t.agentId t.workflowId t.authorityClass.value

/-- The clock has shown a time after `x`. -/
def Passed (o : Oracle) (x : DateTime) (w : CapWorld C) : Prop := ∃ k < w.reads, x < o.time k

theorem Passed.capHandler {x : DateTime} {w : CapWorld C} (h : Passed o x w) (op : CapCall) :
    Passed o x (capHandler o op w).2 := by
  obtain ⟨k, hk, hx⟩ := h
  exact ⟨k, Nat.lt_of_lt_of_le hk (reads_le_capHandler o op w), hx⟩

omit [CapabilityStateStore C] in
theorem Passed.lt_next (hsteady : o.Steady) {x : DateTime} {w : CapWorld C}
    (h : Passed o x w) : x < o.time w.reads := by
  obtain ⟨k, hk, hx⟩ := h
  exact lt_of_lt_of_le hx (hsteady _ _ hk.le)

/-- The clock of a deployment only moves on. -/
theorem reads_le_move (u : CapPool C) (m : Move (Nat × Request)) :
    u.state.reads ≤ ((deployment svc o).move u m).state.reads := by
  cases m with
  | start r => exact Nat.le_refl _
  | advance i =>
    rcases Service.move_advance_cases (deployment svc o) u i with h | ⟨r, op, next, _, h⟩
    · rw [h]
    · rw [h]
      exact reads_le_capHandler o op u.state

/-- The explicit times of purges were read from the clock. -/
private theorem purge_argument_current
    (hq : (deployment svc o).Leads (CurrentPurge o) (fresh (emptyWorld C)) q) {i ρ : Nat}
    {now : String} (hi : request? q i = some (ρ, .purgeExpired (some now))) :
    now = "" ∨ ∃ k < q.state.reads, now = isoformat (o.time k) := by
  let I (q : CapPool C) : Prop := ∀ i ρ now, request? q i = some (ρ, .purgeExpired (some now)) →
    now = "" ∨ ∃ k < q.state.reads, now = isoformat (o.time k)
  have hI : I q := by
    refine hq.invariant (fun u m _ _ hu hG i ρ now hi => ?_) fun i ρ now hi => by
      simp [request?, fresh] at hi
    cases m with
    | start r =>
      rcases request?_start hi with hi | ⟨_, hr⟩
      · exact hu i ρ now hi
      · exact hG ρ now (congrArg Move.start hr.symm)
    | advance j =>
      rw [request?_advance] at hi
      refine (hu i ρ now hi).imp_right ?_
      rintro ⟨k, hk, rfl⟩
      exact ⟨k, Nat.lt_of_lt_of_le hk (reads_le_move u _), rfl⟩
  exact hI i ρ now hi

/-- A purge that is about to run uses a time the clock has shown. -/
private theorem purge_current
    (hq : (deployment svc o).Leads (CurrentPurge o) (fresh (emptyWorld C)) q) {i : Nat}
    {r : Nat × Request} {now : String} {next : Nat → CapProg Reply}
    (hi : q.threads[i]? = some ⟨r, .call (.purgeExpired now) next⟩) :
    ∃ k < q.state.reads, now = isoformat (o.time k) := by
  obtain ⟨ρ, r⟩ := r
  have hpath := hq.follows hi
  have other : ¬ ((svc ρ).body r).Uses (fun op => ∀ now, op ≠ .purgeExpired now) :=
    fun huses => hpath.permits huses now rfl
  cases r with
  | mint args =>
    exact absurd (uses_bind (uses_mint (by simp) (by simp) (by simp) args)
      fun _ => uses_done _) other
  | verifyForAction t action =>
    exact absurd (uses_bind (uses_verifyForAction (by simp) (by simp) (by simp))
      fun _ => uses_done _) other
  | revoke tokenId => exact absurd ⟨by simp, fun _ => trivial⟩ other
  | revokeScope a w c => exact absurd ⟨by simp, fun _ => trivial⟩ other
  | purgeExpired nowIso =>
    obtain ⟨p, hp, heq⟩ := hpath.of_map
    cases p with
    | done a => cases heq
    | raise e => cases heq
    | call op next' =>
      cases heq
      rcases follows_purgeExpired_call hp with ⟨rfl, hne⟩ | ⟨d, hd, rfl⟩
      · have hreq := request?_eq_some_iff.mpr ⟨_, hi⟩
        exact (purge_argument_current hq hreq).resolve_left hne
      · obtain ⟨k, hk, rfl⟩ := (deployment_history hq).exists_reading (mem_calls_iff.mp hd)
        exact ⟨k, hk, rfl⟩

/-- Thread `j` found the token unrevoked only when its expiry had passed, and
then reads a later time. -/
private def FoundLate (o : Oracle) (K : String) (x : DateTime) (w : CapWorld C)
    (cs : List ((op : CapCall) × CapRes op)) : Prop :=
  ∀ rest, cs = ⟨.isRevoked K, false⟩ :: rest →
    Passed o x w ∧ ∀ d rest', rest = ⟨.utcNow, d⟩ :: rest' → x < d

private theorem FoundLate.snoc (hsteady : o.Steady) {K : String} {x : DateTime}
    {w : CapWorld C} {cs : List ((op : CapCall) × CapRes op)} (h : FoundLate o K x w cs)
    (hnow : Passed o x w ∨ isRevoked K w.store = true) (op : CapCall) :
    FoundLate o K x (capHandler o op w).2 (cs ++ [⟨op, (capHandler o op w).1⟩]) := by
  intro rest hrest
  cases cs with
  | nil =>
    -- the token was found unrevoked just now
    simp only [List.nil_append, List.cons.injEq] at hrest
    obtain ⟨hc, rfl⟩ := hrest
    cases op with
    | isRevoked u =>
      simp only [Sigma.mk.injEq, CapCall.isRevoked.injEq] at hc
      obtain ⟨rfl, hans⟩ := hc
      have hfalse : isRevoked u w.store = false := eq_of_heq hans
      rw [hfalse] at hnow
      exact ⟨(hnow.resolve_right Bool.false_ne_true).capHandler _, fun _ _ hd => by cases hd⟩
    | _ => simp at hc
  | cons c cs =>
    simp only [List.cons_append, List.cons.injEq] at hrest
    obtain ⟨rfl, rfl⟩ := hrest
    obtain ⟨hpassed, hlater⟩ := h cs rfl
    refine ⟨hpassed.capHandler op, fun d rest' hd => ?_⟩
    cases cs with
    | nil =>
      simp only [List.nil_append, List.cons.injEq] at hd
      obtain ⟨hc, _⟩ := hd
      cases op <;> simp only [Sigma.mk.injEq, reduceCtorEq, false_and] at hc
      have hread : o.time w.reads = d := eq_of_heq hc.2
      rw [← hread]
      exact hpassed.lt_next hsteady
    | cons c cs =>
      simp only [List.cons_append, List.cons.injEq] at hd
      exact hlater d cs (by rw [hd.1])

private theorem FoundLate.capHandler {K : String} {x : DateTime} {w : CapWorld C}
    {cs : List ((op : CapCall) × CapRes op)} (h : FoundLate o K x w cs) (op : CapCall) :
    FoundLate o K x (capHandler o op w).2 cs :=
  fun rest hrest => ⟨(h rest hrest).1.capHandler op, (h rest hrest).2⟩

/-- The record carries a revocation mark, or its expiry has passed. -/
def Withdrawn (o : Oracle) (K : String) (e : IssuedEntry) (x : DateTime) (w : CapWorld C) : Prop :=
  Passed o x w ∨ isRevoked K w.store = true ∧ issued? w.store K = some e

variable [LawfulCapabilityStore C]

open LawfulCapabilityStore

/-- Only a purge takes a record away, and only after its expiry. -/
theorem issued?_capHandler {K : String} {e : IssuedEntry} {w : CapWorld C}
    (h : issued? w.store K = some e) (op : CapCall) (hrecord : ∀ e', op ≠ .recordIssued K e')
    (hpurge : ∀ now, op = .purgeExpired now → ¬ e.expiresAt < now) :
    issued? (capHandler o op w).2.store K = some e := by
  cases op with
  | utcNow => exact h
  | uuid4 => exact h
  | isRevoked u => exact h
  | recordIssued u e' =>
    have hne : u ≠ K := fun h => hrecord e' (by rw [h])
    exact (issued?_recordIssued_ne _ _ _ _ hne).trans h
  | tryConsume u => exact (issued?_tryConsume _ _ _).trans h
  | revoke u => exact (issued?_revoke _ _ _).trans h
  | revokeScope a wf c => exact (issued?_revokeScope _ _ _ _ _).trans h
  | purgeExpired now =>
    have hexp := hpurge now rfl
    change issued? (purgeExpired now w.store).2 K = some e
    rw [issued?_purgeExpired, h]
    simp [Option.filter, hexp]

/-- A mark stays as long as its record does. -/
theorem isRevoked_capHandler {K : String} {e : IssuedEntry} {w : CapWorld C}
    (hrev : isRevoked K w.store = true) (hiss : issued? w.store K = some e) (op : CapCall)
    (hpurge : ∀ now, op = .purgeExpired now → ¬ e.expiresAt < now) :
    isRevoked K (capHandler o op w).2.store = true := by
  cases op with
  | utcNow => exact hrev
  | uuid4 => exact hrev
  | isRevoked u => exact hrev
  | recordIssued u e' => exact isRevoked_recordIssued _ _ _ _ hrev
  | tryConsume u => exact (isRevoked_tryConsume _ _ _).trans hrev
  | revoke u => exact isRevoked_revoke _ _ _ hrev
  | revokeScope a wf c => exact isRevoked_revokeScope _ _ _ _ _ hrev
  | purgeExpired now =>
    rcases isRevoked_purgeExpired w.store now K hrev with h | ⟨e', he', hlt⟩
    · exact h
    · rw [hiss, Option.some.injEq] at he'
      exact absurd (he' ▸ hlt) (hpurge now rfl)

/-- No call takes the mark away before the expiry: a purge with the current time
drops it with a record that has expired. -/
theorem Withdrawn.capHandler {K : String} {e : IssuedEntry} {x : DateTime}
    (hx : e.expiresAt = isoformat x) {w : CapWorld C} (h : Withdrawn o K e x w) (op : CapCall)
    (hrecord : ∀ e', op ≠ .recordIssued K e')
    (hpurge : ∀ now, op = .purgeExpired now → ∃ k < w.reads, now = isoformat (o.time k)) :
    Withdrawn o K e x (capHandler o op w).2 := by
  rcases h with h | ⟨hrev, hiss⟩
  · exact Or.inl (h.capHandler op)
  by_cases hexp : ∃ now, op = .purgeExpired now ∧ e.expiresAt < now
  · obtain ⟨_, rfl, hlt⟩ := hexp
    obtain ⟨k, hk, rfl⟩ := hpurge _ rfl
    rw [hx, isoformat_lt_iff] at hlt
    exact Or.inl ⟨k, hk, hlt⟩
  · have hkeep : ∀ now, op = .purgeExpired now → ¬ e.expiresAt < now :=
      fun now hop hlt => hexp ⟨now, hop, hlt⟩
    exact Or.inr ⟨isRevoked_capHandler hrev hiss op hkeep,
      issued?_capHandler hiss op hrecord hkeep⟩

/-- Revoking a token on record that is not consumed leaves a mark. -/
theorem withdrawn_of_revokes {t : CapabilityToken} {x : DateTime} {op : CapCall}
    (hop : Revokes t op) {w : CapWorld C} (hrec : issued? w.store t.tokenId = some (entryOf t))
    (hlive : isConsumed t.tokenId w.store = false) :
    Withdrawn o t.tokenId (entryOf t) x (EarnedAutonomy.capHandler o op w).2 := by
  right
  rcases hop with rfl | rfl
  · exact ⟨isRevoked_revoke_self _ _ (by rw [hrec]; rfl), (issued?_revoke _ _ _).trans hrec⟩
  · exact ⟨isRevoked_revokeScope_self _ _ _ hrec hlive,
      (issued?_revokeScope _ _ _ _ _).trans hrec⟩

/-- A token that was on record and not consumed when a revocation took effect is
accepted by no verification that starts after it, however often purges with the
current time run in between. -/
theorem revocation_is_final (hsteady : o.Steady) (hfresh : o.Fresh) {p q : CapPool C}
    (hp : (deployment svc o).Leads (CurrentPurge o) (fresh (emptyWorld C)) p)
    {t : CapabilityToken} (hrec : issued? p.state.store t.tokenId = some (entryOf t))
    (hlive : isConsumed t.tokenId p.state.store = false) {i : Nat} {r : Nat × Request}
    {op : CapCall} {next : CapRes op → CapProg Reply} (hop : Revokes t op)
    (hi : p.threads[i]? = some ⟨r, .call op next⟩)
    (hq : (deployment svc o).Leads (CurrentPurge o) ((deployment svc o).move p (.advance i)) q)
    {j : Nat} (hj : p.threads.length ≤ j) : ¬ AcceptedBy q j t := by
  intro haccepted
  have hp' : (deployment svc o).Leads (CurrentPurge o) (fresh (emptyWorld C))
      ((deployment svc o).move p (.advance i)) := hp.move fun _ _ h => by cases h
  have hmove : (deployment svc o).move p (.advance i) = ⟨(capHandler o op p.state).2,
      p.threads.set i ⟨r, next (capHandler o op p.state).1⟩,
      p.log ++ [⟨i, op, (capHandler o op p.state).1⟩]⟩ := by
    simp only [Service.move, hi]
    rfl
  -- the token was recorded before the revocation, with the expiry `x`
  obtain ⟨k, hk⟩ := (deployment_history hp).exists_record (fun t => issued?_empty t) hrec
  obtain ⟨x, hx⟩ := expiresAt_of_record hp hk
  let I (w : CapWorld C) (log : CapLog) : Prop := Withdrawn o t.tokenId (entryOf t) x w ∧
    ∀ j, p.threads.length ≤ j → FoundLate o t.tokenId x w (calls log j)
  have hstart : I ((deployment svc o).move p (.advance i)).state
      ((deployment svc o).move p (.advance i)).log := by
    rw [hmove]
    refine ⟨withdrawn_of_revokes hop hrec hlive, fun j hj rest hrest => ?_⟩
    have hlen := (List.getElem?_eq_some_iff.mp hi).1
    rw [calls_snoc, if_neg (by omega), hp.calls_eq_nil hj] at hrest
    cases hrest
  have hend : I q.state q.log := by
    refine hq.log_induction (fun u l req op next hu _ hl _ hI => ?_) hstart
    obtain ⟨hmark, hlate⟩ := hI
    have hu₀ := hp'.trans hu
    obtain ⟨later, hlog⟩ := hu.log_grows
    refine ⟨hmark.capHandler hx op ?_ ?_, fun j hj => ?_⟩
    · rintro e' rfl
      refine not_recorded_again hu₀ hfresh (e := entryOf t) (i := k) ?_ hl fun _ _ h => by cases h
      rw [hlog, hmove]
      simp [hk]
    · rintro now rfl
      exact purge_current hu₀ hl
    · rw [calls_snoc]
      split
      · exact (hlate j hj).snoc hsteady (hmark.imp_right And.left) op
      · exact (hlate j hj).capHandler op
  obtain ⟨expires, now, hexp, hnow, hcalls⟩ := haccepted.calls (hp'.trans hq)
  have hlt : x < now := (hend.2 j hj _ hcalls).2 now _ rfl
  have hexpires : t.expiresAt = isoformat x := hx
  rw [hexpires, fromisoformat_isoformat, Option.some.injEq] at hexp
  subst hexp
  simp [hasExpired, hlt.le] at hnow

end

/-- Noon until the mint, an hour later from then on. -/
def demoClock (n : Nat) : DateTime := if n = 0 then demoHour 12 else demoHour 13

theorem demoClock_steady : (demoOracle demoClock).Steady := by
  intro m n h
  by_cases hm : m = 0
  · by_cases hn : n = 0
    · simp [hm, hn]
    · simp only [demoOracle, demoClock, hm, hn, if_true, if_false]
      decide
  · have hn : n ≠ 0 := by omega
    simp [demoOracle, demoClock, hm, hn]

/-- The mark of a revoked token is purged, and the token is refused all the same. -/
theorem revocation_outlives_mark :
    let run := (deployment demoService (demoOracle demoClock)).schedule
    let p := run (fresh (emptyWorld InMemoryCapabilityStore))
      (mintDemo ++ [.start (0, .revoke "cap_")])
    let q := run ((deployment demoService (demoOracle demoClock)).move p (.advance 1))
      [.start (0, .purgeExpired none), .advance 2, .advance 2,
        .start (1, .verifyForAction demoToken demoAction), .advance 3, .advance 3]
    isRevoked "cap_" q.state.store = false ∧ ¬ AcceptedBy q 3 demoToken := by
  have hrevokes : ∀ c : CapCall, c = .revoke "cap_" → Revokes demoToken c := fun _ => Or.inl
  refine ⟨rfl, ?_⟩
  refine revocation_is_final (i := 1) (r := (0, .revoke "cap_")) demoClock_steady
    (demoOracle_fresh _) (leads_schedule ?_) rfl rfl (hrevokes _ rfl) rfl (leads_schedule ?_)
    (by decide)
  · simp [Permits, CurrentPurge, mintDemo, List.replicate]
  · simp [Permits, CurrentPurge]

/-! ## Single use in memory -/

section

variable {P : Primitives} {svc : Nat → CapabilityService P} {o : Oracle}
variable {G : CapPool InMemoryCapabilityStore → Move (Nat × Request) → Prop}
variable {q : CapPool InMemoryCapabilityStore}

/-- A purge that drops the mark of a consumed token finds that the clock has
reached the token's expiry, and no verification of it between its expiry check
and its consume. -/
def SafePurge (o : Oracle) (p : CapPool InMemoryCapabilityStore) : Move (Nat × Request) → Prop
  | .start _ => True
  | .advance i =>
      match nextCall? p i with
      | some (.purgeExpired now) => ∀ K e, isConsumed K p.state.store = true →
          issued? p.state.store K = some e → e.expiresAt < now →
          ¬ isoformat (o.time p.state.reads) < e.expiresAt ∧
            ∀ j, nextCall? p j ≠ some (.tryConsume K)
      | _ => True

/-- Thread `i` is a verification of the token that has consumed it. -/
private def Spent (t : CapabilityToken) (q : CapPool InMemoryCapabilityStore) (i : Nat) : Prop :=
  ⟨i, .tryConsume t.tokenId, true⟩ ∈ q.log ∧
    ∃ ρ action, request? q i = some (ρ, .verifyForAction t action)

/-- A verification of the token is about to consume it. -/
private def Pending (t : CapabilityToken) (q : CapPool InMemoryCapabilityStore) : Prop :=
  ∃ (i ρ : Nat) (action : Action) (next : Bool → CapProg Reply), q.threads[i]? =
    some ⟨(ρ, .verifyForAction t action), .call (.tryConsume t.tokenId) next⟩

/-- What is about to be consumed was found unexpired by the last reading of the
clock. -/
private theorem calls_of_pending
    (hq : (deployment svc o).Leads G (fresh (emptyWorld InMemoryCapabilityStore)) q)
    {t : CapabilityToken} {x : DateTime} (hx : t.expiresAt = isoformat x) {i ρ : Nat}
    {action : Action} {next : Bool → CapProg Reply} (hi : q.threads[i]? =
      some ⟨(ρ, .verifyForAction t action), .call (.tryConsume t.tokenId) next⟩) :
    ∃ now < x, calls q.log i = [⟨.isRevoked t.tokenId, false⟩, ⟨.utcNow, now⟩] := by
  obtain ⟨p, hp, heq⟩ := (hq.follows hi).of_map
  cases p with
  | done a => cases heq
  | raise e => cases heq
  | call op next' =>
    cases heq
    obtain ⟨now, expires, hcalls, hexp, hnow⟩ := follows_verifyForAction_tryConsume hp
    rw [hx, fromisoformat_isoformat, Option.some.injEq] at hexp
    subst hexp
    exact ⟨now, by simpa [hasExpired] using hnow, hcalls⟩

/-- Once the clock has reached the expiry, no move brings a verification before
its consume. -/
private theorem pending_of_move
    (hq : (deployment svc o).Leads G (fresh (emptyWorld InMemoryCapabilityStore)) q)
    {t : CapabilityToken} {x : DateTime} (hx : t.expiresAt = isoformat x)
    (hnow : x ≤ o.time q.state.reads) {m : Move (Nat × Request)} (hG : G q m)
    (h : Pending t ((deployment svc o).move q m)) : Pending t q := by
  obtain ⟨i, ρ, action, next, hi⟩ := h
  obtain ⟨now, hlt, hcalls⟩ := calls_of_pending (hq.move hG) hx hi
  cases m with
  | start r =>
    simp only [Service.move] at hi hcalls
    rcases Nat.lt_or_ge i q.threads.length with hlen | hlen
    · rw [List.getElem?_append_left hlen] at hi
      exact ⟨i, ρ, action, next, hi⟩
    · rw [hq.calls_eq_nil hlen] at hcalls
      cases hcalls
  | advance j =>
    rcases Service.move_advance_cases (deployment svc o) q j with hm | ⟨r, op, next', hj, hm⟩
    · rw [hm] at hi
      exact ⟨i, ρ, action, next, hi⟩
    · rw [hm] at hi hcalls
      by_cases hji : j = i
      · -- the last call of this verification is a reading before the expiry
        subst hji
        rw [calls_snoc, if_pos rfl] at hcalls
        have hlast := congrArg List.getLast? hcalls
        simp only [List.getLast?_concat, List.getLast?_cons_cons, List.getLast?_singleton,
          Option.some.injEq] at hlast
        cases op <;> simp only [Sigma.mk.injEq, reduceCtorEq, false_and] at hlast
        have hread : o.time q.state.reads = now := eq_of_heq hlast.2
        exact absurd (hread ▸ hnow) (not_le.mpr hlt)
      · rw [List.getElem?_set_ne hji] at hi
        exact ⟨i, ρ, action, next, hi⟩

/-- A call keeps a consumed mark, unless it is a purge that finds the record
expired. -/
private theorem consumed_capHandler {K : String} {w : CapWorld InMemoryCapabilityStore}
    (h : K ∈ w.store.consumed) (op : CapCall)
    (hpurge : ∀ now, op = .purgeExpired now → ∀ e, issued? w.store K = some e →
      ¬ e.expiresAt < now) : K ∈ (capHandler o op w).2.store.consumed := by
  cases op with
  | tryConsume u =>
    change K ∈ (w.store.tryConsume u).2.consumed
    unfold InMemoryCapabilityStore.tryConsume
    split
    · exact h
    · exact List.mem_cons_of_mem _ h
  | purgeExpired now =>
    refine List.mem_filter.mpr ⟨h, decide_eq_true fun hexp => ?_⟩
    obtain ⟨⟨K', e⟩, hmem, rfl⟩ := List.mem_map.mp hexp
    rw [List.mem_filter] at hmem
    exact hpurge now rfl e ((Dict.get?_eq_some_iff w.store.nodup).mpr hmem.1)
      (of_decide_eq_true hmem.2)
  | _ => exact h

/-- The token was consumed at most once, and a consumed one is marked or can no
longer reach its consume. -/
private structure SpentOnce (o : Oracle) (t : CapabilityToken) (x : DateTime)
    (q : CapPool InMemoryCapabilityStore) : Prop where
  once : ∀ i j, Spent t q i → Spent t q j → i = j
  closed : ∀ i, Spent t q i → t.tokenId ∈ q.state.store.consumed ∨
    x ≤ o.time q.state.reads ∧ ¬ Pending t q

/-- A verification that has consumed the token had done so before the move, or
did it now and found no mark. -/
private theorem spent_of_move
    (hq : (deployment svc o).Leads G (fresh (emptyWorld InMemoryCapabilityStore)) q)
    {t : CapabilityToken} {m : Move (Nat × Request)} {i : Nat}
    (h : Spent t ((deployment svc o).move q m) i) :
    Spent t q i ∨ m = .advance i ∧ Pending t q ∧ t.tokenId ∉ q.state.store.consumed ∧
      t.tokenId ∈ ((deployment svc o).move q m).state.store.consumed := by
  obtain ⟨hlog, ρ, action, hreq⟩ := h
  cases m with
  | start r =>
    rcases request?_start hreq with hreq | ⟨rfl, _⟩
    · exact Or.inl ⟨hlog, ρ, action, hreq⟩
    · exact absurd (hq.faithful.2 _ hlog) (Nat.lt_irrefl _)
  | advance j =>
    rw [request?_advance] at hreq
    rcases Service.move_advance_cases (deployment svc o) q j with hm | ⟨r, op, next, hj, hm⟩
    · rw [hm] at hlog
      exact Or.inl ⟨hlog, ρ, action, hreq⟩
    · rw [hm] at hlog ⊢
      rcases List.mem_append.mp hlog with hlog | hnew
      · exact Or.inl ⟨hlog, ρ, action, hreq⟩
      · right
        cases op <;> simp only [List.mem_singleton, Entry.mk.injEq, reduceCtorEq, false_and,
          and_false, CapCall.tryConsume.injEq] at hnew
        obtain ⟨rfl, rfl, hheq⟩ := hnew
        have hans : true = (InMemoryCapabilityStore.tryConsume t.tokenId q.state.store).1 :=
          eq_of_heq hheq
        obtain ⟨body, hbody⟩ := request?_eq_some_iff.mp hreq
        rw [hj] at hbody
        cases hbody
        refine ⟨rfl, ⟨i, ρ, action, next, hj⟩, ?_⟩
        change _ ∧ t.tokenId ∈
          (InMemoryCapabilityStore.tryConsume t.tokenId q.state.store).2.consumed
        unfold InMemoryCapabilityStore.tryConsume at hans ⊢
        split at hans
        · cases hans
        · rename_i hmarks
          rw [if_neg hmarks]
          exact ⟨fun h => hmarks (Or.inl h), List.mem_cons_self⟩

/-- A safe move keeps a mark or leaves the token expired and out of reach. -/
private theorem marked_of_move {t : CapabilityToken} {x : DateTime} (hx : t.expiresAt = isoformat x)
    (hrec : ∀ e, issued? q.state.store t.tokenId = some e → e = entryOf t)
    (h : t.tokenId ∈ q.state.store.consumed) {m : Move (Nat × Request)} (hG : SafePurge o q m) :
    t.tokenId ∈ ((deployment svc o).move q m).state.store.consumed ∨
      x ≤ o.time q.state.reads ∧ ¬ Pending t q := by
  cases m with
  | start r => exact Or.inl h
  | advance j =>
    rcases Service.move_advance_cases (deployment svc o) q j with hm | ⟨r, op, next, hj, hm⟩
    · rw [hm]
      exact Or.inl h
    · rw [hm]
      by_cases hexp : ∃ now e, op = .purgeExpired now ∧
          issued? q.state.store t.tokenId = some e ∧ e.expiresAt < now
      · right
        obtain ⟨now, e, rfl, he, hlt⟩ := hexp
        simp only [SafePurge, nextCall?_eq_some_iff.mpr ⟨r, next, hj⟩] at hG
        obtain ⟨hreached, hnone⟩ := hG _ e (decide_eq_true h) he hlt
        rw [hrec e he] at hreached
        simp only [entryOf, hx, isoformat_lt_iff, not_lt] at hreached
        refine ⟨hreached, ?_⟩
        rintro ⟨i, ρ, action, next', hi⟩
        exact hnone i (nextCall?_eq_some_iff.mpr ⟨_, next', hi⟩)
      · left
        refine consumed_capHandler h op fun now hop e he hlt => hexp ⟨now, e, hop, he, hlt⟩

private theorem SpentOnce.move (hsteady : o.Steady)
    (hq : (deployment svc o).Leads (SafePurge o) (fresh (emptyWorld InMemoryCapabilityStore)) q)
    {t : CapabilityToken} {x : DateTime} (hx : t.expiresAt = isoformat x)
    (hrec : ∀ e, issued? q.state.store t.tokenId = some e → e = entryOf t)
    (h : SpentOnce o t x q) {m : Move (Nat × Request)} (hG : SafePurge o q m) :
    SpentOnce o t x ((deployment svc o).move q m) where
  once i j hi hj := by
    -- who has spent the token bars everyone who is about to
    have barred : ∀ {i}, Spent t q i → Pending t q → t.tokenId ∈ q.state.store.consumed :=
      fun hi hpend => (h.closed _ hi).resolve_right fun hc => hc.2 hpend
    rcases spent_of_move hq hi with hi | ⟨rfl, hpend, hfree, _⟩
    · rcases spent_of_move hq hj with hj | ⟨_, hpend, hfree, _⟩
      · exact h.once i j hi hj
      · exact absurd (barred hi hpend) hfree
    · rcases spent_of_move hq hj with hj | ⟨heq, _⟩
      · exact absurd (barred hj hpend) hfree
      · cases heq
        rfl
  closed i hi := by
    have stays : x ≤ o.time q.state.reads ∧ ¬ Pending t q →
        x ≤ o.time ((deployment svc o).move q m).state.reads ∧
          ¬ Pending t ((deployment svc o).move q m) :=
      fun hc => ⟨hc.1.trans (hsteady _ _ (reads_le_move q m)),
        fun hpend => hc.2 (pending_of_move hq hx hc.1 hG hpend)⟩
    rcases spent_of_move hq hi with hi | ⟨_, _, _, hmark⟩
    · rcases h.closed i hi with hmark | hc
      · have hmoved : t.tokenId ∈ ((deployment svc o).move q m).state.store.consumed ∨
            x ≤ o.time q.state.reads ∧ ¬ Pending t q := marked_of_move hx hrec hmark hG
        exact hmoved.imp_right stays
      · exact Or.inr (stays hc)
    · exact Or.inl hmark

/-- A minted single-use token is accepted at most once in memory, when every
purge is safe in the state it is made in. -/
theorem inMemory_accepted_at_most_once (hsteady : o.Steady) (hfresh : o.Fresh)
    (hq : (deployment svc o).Leads (SafePurge o) (fresh (emptyWorld InMemoryCapabilityStore)) q)
    {t : CapabilityToken} (hminted : Minted q t) (hsingle : t.singleUse = true) :
    AcceptedAtMostOnce q t := by
  obtain ⟨k, hk⟩ := hminted.record hq
  obtain ⟨x, hx⟩ := expiresAt_of_record hq hk
  have hspent : SpentOnce o t x q := by
    refine hq.invariant (fun u m hu hmq h hG => h.move hsteady hu hx (fun e he => ?_) hG)
      ⟨fun i j hi _ => absurd hi.1 List.not_mem_nil, fun i hi => absurd hi.1 List.not_mem_nil⟩
    obtain ⟨l, hl⟩ := (deployment_history hu).exists_record (fun _ => rfl) he
    obtain ⟨later, hlog⟩ := ((Service.Leads.move .refl hG).trans hmq).log_grows
    exact entry_eq_of_record hq hfresh (hlog ▸ List.mem_append_left _ hl) hk
  have spent : ∀ {i}, AcceptedBy q i t → Spent t q i := by
    intro i h
    obtain ⟨ρ, action, r, hthread, _⟩ := id h
    exact ⟨h.consumed hq hsingle, ρ, action, request?_eq_some_iff.mpr ⟨_, hthread⟩⟩
  exact fun i j hi hj => hspent.once i j (spent hi) (spent hj)

end

/-- A verification, a purge with the current time, and a second verification. -/
def replayDemo (nowIso : Option String) : List (Move (Nat × Request)) :=
  mintDemo ++ .start (0, .verifyForAction demoToken demoAction) ::
    List.replicate 3 (.advance 1) ++ .start (0, .purgeExpired nowIso) ::
    List.replicate 2 (.advance 2) ++ .start (0, .verifyForAction demoToken demoAction) ::
    List.replicate 4 (.advance 3)

/-- A purge with the current time keeps the mark of a token that has not expired. -/
theorem inMemory_replay :
    let q := (deployment demoService (demoOracle fun _ => demoHour 12)).schedule
      (fresh (emptyWorld InMemoryCapabilityStore)) (replayDemo none)
    AcceptedBy q 1 demoToken ∧ AcceptedAtMostOnce q demoToken := by
  refine ⟨⟨0, demoAction, accept demoToken, rfl, rfl⟩, ?_⟩
  refine inMemory_accepted_at_most_once (fun _ _ _ => le_refl _) (demoOracle_fresh _)
    (leads_schedule ?_) ⟨0, 0, demoArgs, rfl⟩ rfl
  refine ⟨trivial, trivial, trivial, trivial, trivial, trivial, trivial, trivial, trivial,
    trivial, trivial, ?_, trivial, trivial, trivial, trivial, trivial, trivial⟩
  intro K e hcons hiss hlt
  have hmem : K ∈ ["cap_"] := of_decide_eq_true hcons
  obtain rfl := List.mem_singleton.mp hmem
  cases hiss
  exact absurd hlt (by decide)

/-- A purge with a later time drops the mark, and the token is accepted again. -/
theorem inMemory_accepted_twice :
    let q := (deployment demoService (demoOracle fun _ => demoHour 12)).schedule
      (fresh (emptyWorld InMemoryCapabilityStore)) (replayDemo (some "2027-01-01T00:00:00+00:00"))
    Minted q demoToken ∧ demoToken.singleUse = true ∧ AcceptedBy q 1 demoToken ∧
      AcceptedBy q 3 demoToken ∧ ¬ AcceptedAtMostOnce q demoToken := by
  intro q
  have h1 : AcceptedBy q 1 demoToken := ⟨0, demoAction, accept demoToken, rfl, rfl⟩
  have h3 : AcceptedBy q 3 demoToken := ⟨0, demoAction, accept demoToken, rfl, rfl⟩
  exact ⟨⟨0, 0, demoArgs, rfl⟩, rfl, h1, h3, fun h => absurd (h 1 3 h1 h3) (by decide)⟩

end EarnedAutonomy
