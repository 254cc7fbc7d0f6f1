import EarnedAutonomy.Core.CapabilityHistory
import EarnedAutonomy.Core.Paths

/-!
# The token log of a control plane

The capability calls that the commands of a control plane make, picked out of
the log of an interleaving.  They are a history in the sense of
`Core.CapabilityHistory` (`system_history`), in which only proposals put tokens
on record, each under an id that it has drawn (`system_drawsItsIds`).  So what
holds of every such history holds here: an id is recorded once, and in the
database it is consumed once.
-/

namespace EarnedAutonomy

open Atomic Service Prog Calendar CapabilityStateStore CapabilityService

/-- Replicas of a control plane with the commands that are under way. -/
abbrev CpPool (F S C L : Type) := Pool PyError (Nat × Command) Res (Answer F) (World S C L)

/-- The capability calls of a log. -/
def capLog (log : List (Entry Res)) : CapLog :=
  log.filterMap fun
    | ⟨i, .cap c, a⟩ => some ⟨i, c, a⟩
    | _ => none

theorem mem_capLog {log : List (Entry Res)} {i : Nat} {c : CapCall} {a : CapRes c} :
    ⟨i, c, a⟩ ∈ capLog log ↔ ⟨i, .cap c, a⟩ ∈ log := by
  simp only [capLog, List.mem_filterMap]
  constructor
  · rintro ⟨⟨j, op, b⟩, hmem, heq⟩
    cases op <;> simp only [Option.some.injEq, reduceCtorEq] at heq
    cases heq
    exact hmem
  · intro hmem
    exact ⟨_, hmem, rfl⟩

/-- The capability calls of one command. -/
def capCallsOf (cs : List ((c : Call) × Res c)) : List ((c : CapCall) × CapRes c) :=
  cs.filterMap fun
    | ⟨.cap c, a⟩ => some ⟨c, a⟩
    | _ => none

theorem capCallsOf_append (cs cs' : List ((c : Call) × Res c)) :
    capCallsOf (cs ++ cs') = capCallsOf cs ++ capCallsOf cs' := List.filterMap_append

@[simp] theorem capCallsOf_capCalls (cs : List ((c : CapCall) × CapRes c)) :
    capCallsOf (capCalls cs) = cs := by
  simp [capCallsOf, capCalls, List.filterMap_map]

theorem calls_capLog (log : List (Entry Res)) (i : Nat) :
    calls (capLog log) i = capCallsOf (calls log i) := by
  simp only [calls, capLog, capCallsOf, List.filterMap_filterMap]
  refine List.filterMap_congr fun e _ => ?_
  obtain ⟨j, op, a⟩ := e
  by_cases hj : j = i <;> cases op <;> simp [hj]

/-! ## What proposals put on record -/

namespace ControlPlane

variable {P : Primitives} {F : Type} {cp : ControlPlane P F}

/-- The call puts no token on record. -/
def NoRecord (c : Call) : Prop := ∀ t e, c ≠ .cap (.recordIssued t e)

theorem noRecord_of_plain (c : Call) (h : c.plain = true) (_ : c.recordsTrust = false) :
    NoRecord c := by
  rintro t e rfl
  cases h

theorem countP_records_of_noRecord {cs : List ((c : Call) × Res c)}
    (h : ∀ c ∈ cs, NoRecord c.1) (t : String) :
    (capCallsOf cs).countP (fun c => records t c.1) = 0 := by
  refine List.countP_eq_zero.mpr fun c hc hrec => ?_
  obtain ⟨⟨op, a⟩, hmem, heq⟩ := List.mem_filterMap.mp hc
  cases op <;> simp only [Option.some.injEq, reduceCtorEq] at heq
  subst heq
  rename_i c
  cases c <;> simp only [records, Bool.false_eq_true, decide_eq_true_eq] at hrec
  exact h _ hmem _ _ rfl

/-- A proposal that has put a token on record has assessed the event, found that
the action may proceed, and drawn the id. -/
theorem follows_proposeEvent_record {e : WorkflowEvent} {calls : List ((c : Call) × Res c)}
    {q : CpProg Packet} (h : Follows (cp.proposeEvent e) calls q) {K : String}
    {entry : IssuedEntry} (hrec : ⟨.cap (.recordIssued K entry), ()⟩ ∈ calls) :
    ∃ p auth now expires id nonce rest, Follows (cp.authenticate e) auth (.done p.agent) ∧
      Assessed cp e p ∧ p.decision.status.permissive = true ∧
      calls = auth ++ (readingCalls e p ++ (capCalls [⟨.utcNow, now⟩, ⟨.uuid4, id⟩,
        ⟨.uuid4, nonce⟩, ⟨.recordIssued K entry, ()⟩] ++ rest)) ∧
      (∀ c ∈ rest, NoRecord c.1) ∧ K = newId "cap" id ∧
      entry = entryOf (cp.capabilityService.unsignedToken
        (cp.grantFor p.event p.matchingRule p.decision.status) now expires id nonce) := by
  have hnot : ¬ NoRecord (.cap (.recordIssued K entry)) := fun h => h K entry rfl
  obtain ⟨agent, auth, back, rfl, hauth, hback, hrec⟩ := h.mem_of_bind
    (uses_authenticate noRecord_of_plain fun _ _ t e => by simp) hrec hnot
  obtain ⟨p, reading, back, rfl, hreading, hconclude, hmem⟩ := hback.mem_of_bind
    (uses_assess noRecord_of_plain (fun t e => by simp) (fun t e => by simp) fun t e => by simp)
    hrec hnot
  obtain ⟨rfl, hassessed, rfl, _⟩ := follows_assess_done hreading
  -- the record was made by the mint, whatever follows it
  obtain ⟨front, rest, p', rfl, hmint, hmem, hrest⟩ : ∃ front rest p', back = front ++ rest ∧
      Follows (cp.mintFor p.event p.matchingRule p.decision.status) front p' ∧
      ⟨.cap (.recordIssued K entry), ()⟩ ∈ front ∧ ∀ c ∈ rest, NoRecord c.1 := by
    rcases follows_bind_iff.mp hconclude with
      ⟨p', hp', _⟩ | ⟨token, front, rest, rfl, hfront, hrest⟩
    · exact ⟨back, [], p', (List.append_nil _).symm, hp', hmem, fun _ h => nomatch h⟩
    · have huses := hrest.uses_calls (uses_recordAnswer noRecord_of_plain p token)
      refine ⟨front, rest, _, rfl, hfront, ?_, huses⟩
      exact (List.mem_append.mp hmem).resolve_right fun hc => hnot (huses ⟨_, ()⟩ hc)
  unfold mintFor at hmint
  cases hperm : p.decision.status.permissive with
  | false =>
    simp only [hperm, Bool.false_eq_true, if_false, pure_eq_done, follows_done_iff] at hmint
    simp [hmint.1] at hmem
  | true =>
    simp only [hperm, if_true] at hmint
    obtain ⟨p'', hmint, _⟩ := hmint.of_map
    obtain ⟨cs, p''', rfl, hcs, _⟩ := follows_liftCap hmint
    have hrecord : ⟨.recordIssued K entry, ()⟩ ∈ cs := by
      obtain ⟨⟨c, a⟩, hc, heq⟩ := List.mem_map.mp hmem
      cases heq
      exact hc
    obtain ⟨now, expires, id, nonce, rfl, hid, hentry⟩ := follows_mint hcs hrecord
    exact ⟨p, auth, now, expires, id, nonce, rest, hauth, hassessed, hperm, rfl, hrest, hid,
      hentry⟩

variable [Arithmetic F]

/-- No other command puts a token on record. -/
theorem follows_body_record {cmd : Command} {calls : List ((c : Call) × Res c)}
    {q : CpProg (Answer F)} (h : Follows (cp.body cmd) calls q) {K : String}
    {entry : IssuedEntry} (hrec : ⟨.cap (.recordIssued K entry), ()⟩ ∈ calls) :
    ∃ e q', cmd = .proposeEvent e ∧ Follows (cp.proposeEvent e) calls q' := by
  rcases follows_body_call h hrec with hplain | hown
  · cases hplain
  · cases cmd <;> simp [ownCall] at hown
    obtain ⟨q', hq', _⟩ := Follows.of_map h
    exact ⟨_, q', rfl, hq'⟩

end ControlPlane

/-! ## The history of a run -/

section

variable {P : Primitives} {F : Type} [Arithmetic F] {cp : ControlPlane P F} {o : Oracle}
variable {S C L : Type} [Store S] [CapabilityStateStore C] [AuditLog L]
variable {G : CpPool F S C L → Move (Nat × Command) → Prop} {w₀ : World S C L}
variable {q : CpPool F S C L}

/-- A call of another kind leaves the capability state, and the clock and the
generator only move on. -/
theorem capView_worldHandler {keys : KeyPair P} {replica : Nat} {c : Call}
    (hc : ∀ op, c ≠ .cap op) (w : World S C L) :
    (worldHandler o keys replica c w).2.capability = w.capability ∧
      w.reads ≤ (worldHandler o keys replica c w).2.reads ∧
      w.draws ≤ (worldHandler o keys replica c w).2.draws := by
  cases c with
  | cap op => exact absurd rfl (hc op)
  | applyDecision a wf k d =>
    simp only [worldHandler]
    split
    · exact ⟨rfl, Nat.le_succ_of_le (Nat.le_add_right _ _), Nat.le_refl _⟩
    · exact ⟨rfl, Nat.le_add_right _ _, Nat.le_refl _⟩
  | noteIncident a wf k => exact ⟨rfl, by simp [worldHandler]; omega, Nat.le_refl _⟩
  | getStats a wf k => exact ⟨rfl, by simp [worldHandler], Nat.le_refl _⟩
  | append e p a => exact ⟨rfl, Nat.le_succ _, Nat.le_succ _⟩
  | _ => exact ⟨rfl, Nat.le_refl _, Nat.le_refl _⟩

/-- No call turns the clock back. -/
theorem reads_le_worldHandler {keys : KeyPair P} {replica : Nat} (c : Call) (w : World S C L) :
    w.reads ≤ (worldHandler o keys replica c w).2.reads := by
  by_cases hc : ∃ op, c = .cap op
  · obtain ⟨op, rfl⟩ := hc
    exact reads_le_capHandler o op (capView w)
  · exact (capView_worldHandler (fun op h => hc ⟨op, h⟩) w).2.1

/-- The capability calls of a run are a history. -/
theorem system_history (hq : (cp.system o).Leads G (fresh w₀) q) :
    CapHistory o (capView w₀) (capLog q.log) (capView q.state) := by
  refine hq.log_induction (I := fun w log => CapHistory o (capView w₀) (capLog log) (capView w))
    (fun u i r op next _ _ _ _ h => ?_) .nil
  have hlog : capLog (u.log ++ [⟨i, op, ((cp.system o).handler r op u.state).1⟩]) =
      capLog u.log ++ capLog [⟨i, op, ((cp.system o).handler r op u.state).1⟩] :=
    List.filterMap_append
  rw [hlog]
  by_cases hop : ∃ c, op = .cap c
  · obtain ⟨c, rfl⟩ := hop
    exact h.snoc i c
  · have hne : ∀ c, op ≠ .cap c := fun c hc => hop ⟨c, hc⟩
    obtain ⟨hsame, hreads, hdraws⟩ :
        ((cp.system o).handler r op u.state).2.capability = u.state.capability ∧
          u.state.reads ≤ ((cp.system o).handler r op u.state).2.reads ∧
          u.state.draws ≤ ((cp.system o).handler r op u.state).2.draws :=
      capView_worldHandler hne u.state
    have hnil : capLog [⟨i, op, ((cp.system o).handler r op u.state).1⟩] = [] := by
      cases op with
      | cap c => exact absurd rfl (hne c)
      | _ => rfl
    rw [hnil, List.append_nil]
    have hview : capView ((cp.system o).handler r op u.state).2 =
        ⟨u.state.capability, ((cp.system o).handler r op u.state).2.reads,
          ((cp.system o).handler r op u.state).2.draws⟩ := by
      rw [← hsame]
      rfl
    rw [hview]
    exact h.pass hreads hdraws

/-- A record was made by a proposal, with the id it drew. -/
theorem exists_proposal_of_record (hq : (cp.system o).Leads G (fresh w₀) q) {i : Nat}
    {K : String} {entry : IssuedEntry}
    (h : ⟨i, .cap (.recordIssued K entry), ()⟩ ∈ q.log) :
    ∃ ρ e q', request? q i = some (ρ, .proposeEvent e) ∧
      Follows (cp.proposeEvent e) (calls q.log i) q' := by
  obtain ⟨⟨⟨ρ, cmd⟩, body⟩, hi⟩ := hq.exists_thread h
  obtain ⟨e, q', rfl, hq'⟩ :=
    ControlPlane.follows_body_record (hq.follows hi) (mem_calls_iff.mpr h)
  exact ⟨ρ, e, q', request?_eq_some_iff.mpr ⟨_, hi⟩, hq'⟩

/-- Every command draws the ids it records. -/
theorem system_drawsItsIds (hq : (cp.system o).Leads G (fresh w₀) q) :
    DrawsItsIds (capLog q.log) where
  drawn i t e h := by
    obtain ⟨ρ, ev, q', _, hpath⟩ := exists_proposal_of_record hq (mem_capLog.mp h)
    obtain ⟨p, auth, now, expires, id, nonce, rest, _, _, _, hcalls, _, hid, _⟩ :=
      ControlPlane.follows_proposeEvent_record hpath (mem_calls_iff.mpr (mem_capLog.mp h))
    exact ⟨id, mem_capLog.mpr (mem_calls_iff.mp (by simp [hcalls, capCalls])), hid⟩
  once i t := by
    rw [← countP_calls (capLog q.log) i fun c => records t c.1]
    by_cases hnone : ∀ c ∈ calls (capLog q.log) i, records t c.1 = false
    · rw [List.countP_eq_zero.mpr fun c hc => by simp [hnone c hc]]
      exact Nat.zero_le 1
    · push Not at hnone
      obtain ⟨⟨c, a⟩, hc, hrec⟩ := hnone
      cases c <;> simp only [records, ne_eq, not_true_eq_false, Bool.not_eq_false] at hrec
      have hmem := mem_capLog.mp (mem_calls_iff.mp hc)
      obtain ⟨ρ, ev, q', _, hpath⟩ := exists_proposal_of_record hq hmem
      obtain ⟨p, auth, now, expires, id, nonce, rest, hauth, _, _, hcalls, hrest, _⟩ :=
        ControlPlane.follows_proposeEvent_record hpath (mem_calls_iff.mpr hmem)
      have hfront := hauth.uses_calls (ControlPlane.uses_authenticate
        ControlPlane.noRecord_of_plain fun _ _ _ _ => by simp)
      have hreading : ∀ c ∈ ControlPlane.readingCalls ev p, ControlPlane.NoRecord c.1 := by
        simp [ControlPlane.readingCalls, ControlPlane.NoRecord]
      rw [calls_capLog, hcalls, capCallsOf_append, capCallsOf_append, capCallsOf_append,
        List.countP_append, List.countP_append, List.countP_append, capCallsOf_capCalls,
        ControlPlane.countP_records_of_noRecord hfront,
        ControlPlane.countP_records_of_noRecord hreading,
        ControlPlane.countP_records_of_noRecord hrest]
      simp only [List.countP_cons, records, List.countP_nil]
      split <;> simp

/-- A token id is put on record at most once. -/
theorem recorded_at_most_once (hq : (cp.system o).Leads G (fresh w₀) q) (hfresh : o.Fresh)
    (K : String) : (capLog q.log).countP (fun e => records K e.op) ≤ 1 :=
  (system_history hq).recorded_le_one hfresh (system_drawsItsIds hq) K

/-- Two records of one id are one. -/
theorem eq_of_records (hq : (cp.system o).Leads G (fresh w₀) q) (hfresh : o.Fresh)
    {i j : Nat} {K : String} {e e' : IssuedEntry}
    (h : ⟨i, .cap (.recordIssued K e), ()⟩ ∈ q.log)
    (h' : ⟨j, .cap (.recordIssued K e'), ()⟩ ∈ q.log) : i = j ∧ e = e' := by
  have heq := thread_eq_of_countP_le_one (recorded_at_most_once hq hfresh K)
    (mem_capLog.mpr h) (mem_capLog.mpr h') (by simp [records]) (by simp [records])
  simp only [Entry.mk.injEq, CapCall.recordIssued.injEq] at heq
  exact ⟨heq.1, heq.2.1.2⟩

/-- A token that has been recorded is not about to be recorded again. -/
theorem not_about_to_record (hq : (cp.system o).Leads G (fresh w₀) q) (hfresh : o.Fresh)
    {i : Nat} {K : String} {e : IssuedEntry} (h : ⟨i, .cap (.recordIssued K e), ()⟩ ∈ q.log)
    {j : Nat} {r : Nat × Command} {e' : IssuedEntry} {next : Unit → CpProg (Answer F)}
    (hj : q.threads[j]? = some ⟨r, .call (.cap (.recordIssued K e')) next⟩)
    (hG : G q (.advance j)) : False := by
  have hone := recorded_at_most_once (hq.move hG) hfresh K
  have hlog : capLog ((cp.system o).move q (.advance j)).log =
      capLog q.log ++ [⟨j, .recordIssued K e', ()⟩] := by
    simp only [Service.move, hj]
    exact List.filterMap_append
  have hpos : 0 < (capLog q.log).countP fun e => records K e.op :=
    List.countP_pos_iff.mpr ⟨_, mem_capLog.mpr h, by simp [records]⟩
  have hagain : List.countP (fun e => records K e.op)
      [(⟨j, .recordIssued K e', ()⟩ : Entry CapRes)] = 1 := by simp [records]
  rw [hlog, List.countP_append] at hone
  omega

end

/-- In the database a token is consumed at most once. -/
theorem consumed_at_most_once {P : Primitives} {F : Type} [Arithmetic F] {cp : ControlPlane P F}
    {o : Oracle} {S L : Type} [Store S] [AuditLog L]
    {G : CpPool F S SqlCapabilityStore L → Move (Nat × Command) → Prop}
    {w₀ : World S SqlCapabilityStore L} {q : CpPool F S SqlCapabilityStore L}
    (hq : (cp.system o).Leads G (fresh w₀) q) (hfresh : o.Fresh)
    (hempty : ∀ K, w₀.capability.row? K = none) {i j : Nat} {K : String}
    (hi : ⟨i, .cap (.tryConsume K), true⟩ ∈ q.log)
    (hj : ⟨j, .cap (.tryConsume K), true⟩ ∈ q.log) : i = j := by
  have hrecorded := recorded_at_most_once hq hfresh K
  have hconsumed := (system_history hq).consumed_le_recorded K (hempty K)
  have hone : (capLog q.log).countP (consumes K) ≤ 1 := by omega
  have heq := thread_eq_of_countP_le_one hone (mem_capLog.mpr hi) (mem_capLog.mpr hj)
    (by simp [consumes]) (by simp [consumes])
  exact congrArg Entry.thread heq

end EarnedAutonomy
