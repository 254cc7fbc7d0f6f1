import EarnedAutonomy.Core.Vetting
import Mathlib.Data.Finset.Card

/-!
# Trust is the fold of vetted decisions

What a run of commands has made of the statistics of a replica, in terms of the decisions that
were accepted on it.

* `TrustMove` is what one turn does to the statistics (`move_of_serve`): it applies the decision
  that was accepted, notes the incident, reads an entry, or does nothing.
* `Tallies`: the statistics are what a list of accepted decisions and a list of incidents come
  to.  It holds of the empty statistics and every turn keeps it (`Tallies.move`).
* `replay` applies accepted decisions in any order (`replay_of_nodup`).
* `trust_is_fold_of_vetted` puts these together for every run.
-/

namespace EarnedAutonomy

open Atomic Service Prog OrderedDict Calendar Store LawfulStore ControlPlane
open DelegationMemory (key)

/-! ## What leaves the statistics -/

/-- The call neither reads nor moves the statistics. -/
def Call.keepsMemory : Call → Bool
  | .applyDecision _ _ _ _ | .noteIncident _ _ _ | .getStats _ _ _ => false
  | _ => true

section

variable {P : Primitives} {F : Type} {cp : ControlPlane P F} {o : Oracle} {keys : KeyPair P}
variable {replica : Nat} {S C L : Type} [Store S] [CapabilityStateStore C] [AuditLog L]

theorem memories_of_keepsMemory {op : Call} (h : op.keepsMemory = true) (w : World S C L) :
    (worldHandler o keys replica op w).2.memories = w.memories := by
  cases op <;> first | rfl | cases h

/-- A program without such calls leaves them. -/
theorem ensures_keepsMemory {α : Type} {p : CpProg α} (hp : p.Uses fun c => c.keepsMemory = true)
    (w : World S C L) :
    p.Ensures (worldHandler o keys replica) w fun _ w' => w'.memories = w.memories :=
  ensures_of_uses (I := fun w' => w'.memories = w.memories) hp
    (fun _ hop w' hw' => (memories_of_keepsMemory hop w').trans hw') rfl

/-- The capability service has no statistics. -/
theorem keepsMemory_liftCap {α : Type} (p : CapProg α) :
    (liftCap p).Uses fun c => c.keepsMemory = true :=
  uses_liftCap ((uses_true p).mono fun _ _ => rfl)

theorem keepsMemory_proposeEvent {e : WorkflowEvent} :
    (cp.proposeEvent e).Uses fun c => c.keepsMemory = true := by
  refine uses_bind (uses_bind (uses_call_bind rfl fun found => ?_) fun agent => ?_) fun agent =>
    uses_bind (uses_call_bind rfl fun claimed => ?_) fun p => ?_
  · cases found with
    | some agent => trivial
    | none =>
      dsimp only
      split
      · trivial
      · exact uses_call_bind rfl fun now => uses_call_bind rfl fun _ => trivial
  · split
    · trivial
    · split
      · split
        · trivial
        · exact uses_bind (uses_ofExcept _) fun signed => by cases signed <;> trivial
      · trivial
  · cases claimed with
    | false => trivial
    | true =>
      refine uses_call_bind rfl fun _ => uses_bind (uses_ofExcept _) fun classified => ?_
      refine uses_bind (uses_ofExcept _) fun current => uses_call_bind rfl fun found => ?_
      refine uses_bind (uses_ofExcept _) fun rule? => uses_call_bind rfl fun _ => ?_
      exact uses_bind (uses_ofExcept _) fun decision => trivial
  · refine uses_bind ?_ fun token => uses_call_bind rfl fun _ =>
      uses_bind (uses_ledgerAppend rfl) fun _ => trivial
    unfold mintFor
    split
    · exact uses_bind (keepsMemory_liftCap _) fun _ => trivial
    · trivial

theorem keepsMemory_downgrade {a w : String} {c : AuthorityClass} {reason : PyStr} :
    (downgrade a w c reason).Uses fun c => c.keepsMemory = true := by
  refine uses_call_bind rfl fun found => ?_
  cases found with
  | none => trivial
  | some agent =>
    refine uses_call_bind rfl fun _ => uses_bind (uses_ofExcept _) fun current => ?_
    refine uses_call_bind rfl fun _ => uses_call_bind rfl fun rules => ?_
    exact uses_deactivateRules (fun _ _ => rfl) rules

/-- The commands that are not about trust. -/
theorem keepsMemory_body [Arithmetic F] {cmd : Command} (htrust : cmd.trustRecord = none)
    (hrecommend : ∀ a w c, cmd ≠ .recommendFor a w c) :
    (cp.body cmd).Uses fun c => c.keepsMemory = true := by
  cases cmd with
  | registerAgent agent =>
    refine uses_bind ?_ fun _ => trivial
    unfold registerAgent
    split
    · trivial
    · exact uses_call_bind rfl fun _ => uses_bind (uses_ledgerAppend rfl) fun _ => trivial
  | proposeEvent e => exact uses_bind keepsMemory_proposeEvent fun _ => trivial
  | approveDelegationRule rule approverId role =>
    refine uses_bind (uses_call_bind rfl fun agent? => ?_) fun _ => trivial
    dsimp only
    split
    · trivial
    · split
      · trivial
      · exact uses_call_bind rfl fun _ => uses_bind (uses_ledgerAppend rfl) fun _ => trivial
  | revokeDelegationRule ruleId actorId reason =>
    refine uses_bind (uses_call_bind rfl fun found => ?_) fun _ => trivial
    cases found with
    | none => trivial
    | some rule =>
      refine uses_call_bind rfl fun _ => uses_bind (keepsMemory_liftCap _) fun _ => ?_
      exact uses_bind (uses_ledgerAppend rfl) fun _ => trivial
  | execute token action outcome =>
    refine uses_bind ?_ fun _ => trivial
    cases token with
    | none => trivial
    | some t =>
      refine uses_bind (keepsMemory_liftCap _) fun r => ?_
      split
      · trivial
      · refine uses_call_bind rfl fun _ => ?_
        cases outcome <;> trivial
  | verifyForAction t action => exact uses_bind (keepsMemory_liftCap _) fun _ => trivial
  | revokeToken tokenId => exact uses_bind (keepsMemory_liftCap _) fun _ => trivial
  | purgeExpired => exact uses_bind (keepsMemory_liftCap _) fun _ => trivial
  | submitDecision d => cases htrust
  | recordIncident a w c reason actorId => cases htrust
  | recommendFor a w c => exact absurd rfl (hrecommend a w c)

/-- An incident is noted, and nothing else about the statistics. -/
theorem ensures_recordIncident_memories [Arithmetic F] {a wf : String} {c : AuthorityClass}
    {reason : PyStr} {actorId : String} {w : World S C L} :
    (recordIncident F a wf c reason actorId).Ensures (worldHandler o keys replica) w
      fun _ w' => ∃ created now, w'.memories = Function.update w.memories replica
        ((w.memories replica).recordIncident a wf c created now).2 := by
  unfold recordIncident
  rw [perform_bind, ensures_call]
  refine (ensures_keepsMemory ?_ _).mono fun _ w' hw' => ⟨_, _, hw'⟩
  refine uses_call_bind rfl fun _ => uses_bind keepsMemory_downgrade fun rules => ?_
  exact uses_bind (keepsMemory_liftCap _) fun _ =>
    uses_bind (uses_ledgerAppend rfl) fun _ => trivial

end

/-! ## Moves of the statistics -/

/-- An accepted decision, with the scope of the event it is about. -/
structure Vetted where
  agentId : String
  workflowId : String
  authorityClass : AuthorityClass
  decision : ApprovalDecision

namespace Vetted

/-- The decision with the scope of its event. -/
def of (d : ApprovalDecision) (e : WorkflowEvent) : Vetted :=
  ⟨e.agentId, e.workflowId, e.authorityRequested, d⟩

def key (v : Vetted) : StatsKey :=
  DelegationMemory.key v.agentId v.workflowId v.authorityClass

/-- `apply_decision` under the scope. -/
def apply (v : Vetted) (m : DelegationMemory) (created now : String) :
    Except PyError TrustStats × DelegationMemory :=
  m.applyDecision v.agentId v.workflowId v.authorityClass v.decision created now

/-- The decision counts under this key and in this counter. -/
def countsFor (k : StatsKey) (t : TrustCounter) (v : Vetted) : Bool :=
  v.key = k && v.decision.outcome.counter = t

/-- The event that the decision decides under this key. -/
def decides? (k : StatsKey) (v : Vetted) : Option String :=
  if v.key = k then some v.decision.eventId else none

end Vetted

/-- The events that the decisions decide under a key. -/
def decidedUnder (vs : List Vetted) (k : StatsKey) : List String :=
  vs.filterMap (Vetted.decides? k)

/-- What one turn does to the statistics of its replica, where it is about a key: a decision that
it applies, and the key of an incident that it notes. -/
inductive TrustMove (about : Option StatsKey) (m : DelegationMemory) :
    Option Vetted → Option StatsKey → DelegationMemory → Prop where
  | decision {v : Vetted} {created now : String} {s : TrustStats} {m' : DelegationMemory}
      (hkey : about = some v.key) (happly : v.apply m created now = (.ok s, m')) :
      TrustMove about m (some v) none m'
  | incident {a w : String} {c : AuthorityClass} {created now : String}
      (hkey : about = some (key a w c)) :
      TrustMove about m none (some (key a w c)) (m.recordIncident a w c created now).2
  | read {a w : String} {c : AuthorityClass} {now : String} (hkey : about = some (key a w c)) :
      TrustMove about m none none (m.get a w c now).2
  | idle : TrustMove about m none none m

namespace DelegationMemory

variable {m : DelegationMemory} {a w : String} {c : AuthorityClass} {k : StatsKey}

theorem stats_put_ne (h : key a w c ≠ k) (s : TrustStats) :
    Dict.get? (m.put a w c s).stats k = Dict.get? m.stats k := by
  unfold put
  rw [Dict.get?_set, if_neg h]

theorem stats_get_ne (h : key a w c ≠ k) (now : String) :
    Dict.get? (m.get a w c now).2.stats k = Dict.get? m.stats k := by
  unfold get
  cases m.find? a w c with
  | some s => rfl
  | none => exact stats_put_ne h _

end DelegationMemory

/-- What a decision that is applied leaves. -/
structure Applied (v : Vetted) (m m' : DelegationMemory) : Prop where
  fresh : v.decision.eventId ∉ m.decided v.key
  counter : ∀ k t, m'.counter k t = m.counter k t + (v.countsFor k t).toNat
  decided : ∀ k, m'.decided k = m.decided k ++ (v.decides? k).toList
  elsewhere : ∀ k, v.key ≠ k → Dict.get? m'.stats k = Dict.get? m.stats k

theorem Vetted.applied {v : Vetted} {m m' : DelegationMemory} {created now : String}
    {s : TrustStats} (h : v.apply m created now = (.ok s, m')) : Applied v m m' := by
  rcases m.applyDecision_cases v.agentId v.workflowId v.authorityClass now v.decision created with
    ⟨_, err, happly⟩ | ⟨hfresh, s', hs', happly⟩
  · rw [Vetted.apply, happly] at h
    cases h
  · rw [Vetted.apply, happly, Prod.mk.injEq] at h
    obtain ⟨_, rfl⟩ := h
    refine ⟨hfresh, fun k t => ?_, fun k => ?_, fun k hk => ?_⟩
    · rw [DelegationMemory.counter_put, DelegationMemory.counter_get_snd, hs',
        TrustStats.counter_decide, DelegationMemory.counter_get_fst]
      by_cases hk : v.key = k
      · subst hk
        by_cases ht : v.decision.outcome.counter = t <;> simp [Vetted.countsFor, Vetted.key, ht]
      · have hother : DelegationMemory.key v.agentId v.workflowId v.authorityClass ≠ k := hk
        simp [Vetted.countsFor, hk, hother]
    · rw [DelegationMemory.decided_put, DelegationMemory.decided_get_snd, hs',
        TrustStats.decidedEventIds_decide, DelegationMemory.decided_get_fst]
      by_cases hk : v.key = k
      · subst hk
        simp [Vetted.decides?, Vetted.key]
      · have hother : DelegationMemory.key v.agentId v.workflowId v.authorityClass ≠ k := hk
        simp [Vetted.decides?, hk, hother]
    · rw [DelegationMemory.stats_put_ne hk, DelegationMemory.stats_get_ne hk]

section

variable {about : Option StatsKey} {m m' : DelegationMemory} {v : Option Vetted}
variable {i : Option StatsKey}

/-- A turn leaves the entries of other keys. -/
theorem TrustMove.elsewhere (h : TrustMove about m v i m') {k : StatsKey} (hk : about ≠ some k) :
    Dict.get? m'.stats k = Dict.get? m.stats k := by
  have hne {k' : StatsKey} (hkey : about = some k') : k' ≠ k := by
    rintro rfl
    exact hk hkey
  cases h with
  | decision hkey happly => exact (Vetted.applied happly).elsewhere k (hne hkey)
  | incident hkey =>
    unfold DelegationMemory.recordIncident
    rw [DelegationMemory.stats_put_ne (hne hkey), DelegationMemory.stats_get_ne (hne hkey)]
  | read hkey => exact DelegationMemory.stats_get_ne (hne hkey) _
  | idle => rfl

/-! ## The fold -/

/-- The statistics are what these decisions and incidents come to, and no event is decided twice
under a key. -/
structure Tallies (vs : List Vetted) (incidents : List StatsKey) (m : DelegationMemory) :
    Prop where
  counter : ∀ k t, m.counter k t =
    vs.countP (Vetted.countsFor k t) + if t = .incidents then incidents.count k else 0
  decided : ∀ k, m.decided k = decidedUnder vs k
  nodup : ∀ k, (decidedUnder vs k).Nodup

variable {vs : List Vetted} {incidents : List StatsKey}

theorem tallies_empty : Tallies [] [] {} := by
  refine ⟨fun k t => ?_, fun k => rfl, fun k => List.nodup_nil⟩
  show 0 = 0 + _
  split <;> rfl

/-- A decision that is applied is one more of the list. -/
theorem Tallies.apply (h : Tallies vs incidents m) {v : Vetted} (hv : Applied v m m') :
    Tallies (vs ++ [v]) incidents m' := by
  have hdecided (k : StatsKey) :
      decidedUnder (vs ++ [v]) k = decidedUnder vs k ++ (v.decides? k).toList := by
    unfold decidedUnder
    rw [List.filterMap_append, List.filterMap_cons, List.filterMap_nil]
    cases v.decides? k <;> rfl
  refine ⟨fun k t => ?_, fun k => ?_, fun k => ?_⟩
  · rw [hv.counter, h.counter, List.countP_append, List.countP_singleton]
    cases v.countsFor k t with
    | false => simp
    | true =>
      simp only [Bool.toNat_true, if_true]
      omega
  · rw [hv.decided, h.decided, hdecided]
  · rw [hdecided]
    by_cases hk : v.key = k
    · subst hk
      have hfresh := hv.fresh
      rw [h.decided] at hfresh
      have hone : v.decides? v.key = some v.decision.eventId := if_pos rfl
      rw [hone, Option.toList_some, ← List.concat_eq_append]
      exact (h.nodup v.key).concat hfresh
    · have hnone : v.decides? k = none := if_neg hk
      rw [hnone, Option.toList_none, List.append_nil]
      exact h.nodup k

/-- One turn keeps it. -/
theorem Tallies.move (h : Tallies vs incidents m) (hmove : TrustMove about m v i m') :
    Tallies (vs ++ v.toList) (incidents ++ i.toList) m' := by
  cases hmove with
  | decision hkey happly =>
    rw [Option.toList_none, List.append_nil]
    exact h.apply (Vetted.applied happly)
  | incident hkey =>
    rw [Option.toList_none, List.append_nil, Option.toList_some]
    refine ⟨fun k t => ?_, fun k => ?_, h.nodup⟩
    · rw [DelegationMemory.counter_recordIncident, h.counter, List.count_append,
        List.count_singleton]
      by_cases ht : t = .incidents
      · simp [ht, Nat.add_assoc]
      · simp [ht]
    · rw [DelegationMemory.decided_recordIncident, h.decided]
  | read hkey =>
    rw [Option.toList_none, Option.toList_none, List.append_nil, List.append_nil]
    refine ⟨fun k t => ?_, fun k => ?_, h.nodup⟩
    · rw [DelegationMemory.counter_get_snd, h.counter]
    · rw [DelegationMemory.decided_get_snd, h.decided]
  | idle =>
    rw [Option.toList_none, Option.toList_none, List.append_nil, List.append_nil]
    exact h

/-- The decisions under a key, by the counter that each of them moves. -/
theorem length_decidedUnder (vs : List Vetted) (k : StatsKey) :
    (decidedUnder vs k).length =
      vs.countP (Vetted.countsFor k .cleanApprovals) +
        vs.countP (Vetted.countsFor k .modifiedApprovals) +
        vs.countP (Vetted.countsFor k .rejections) +
        vs.countP (Vetted.countsFor k .escalations) +
        vs.countP (Vetted.countsFor k .evidenceRequests) := by
  induction vs with
  | nil => rfl
  | cons v vs ih =>
    have hcons : (decidedUnder (v :: vs) k).length =
        (decidedUnder vs k).length + if v.key = k then 1 else 0 := by
      unfold decidedUnder
      rw [List.filterMap_cons, Vetted.decides?]
      by_cases hk : v.key = k <;> simp [hk]
    simp only [hcons, ih, List.countP_cons, Vetted.countsFor, Bool.and_eq_true,
      decide_eq_true_eq]
    by_cases hk : v.key = k
    · cases v.decision.outcome <;> simp [hk, ApprovalOutcome.counter] <;> omega
    · simp [hk]

/-- The total of an entry is the number of events that are decided under its key. -/
theorem Tallies.total (h : Tallies vs incidents m) {k : StatsKey} {s : TrustStats}
    (hs : Dict.get? m.stats k = some s) :
    s.totalDecisions = (decidedUnder vs k).toFinset.card := by
  have hcounter (t : TrustCounter) : s.counter t =
      vs.countP (Vetted.countsFor k t) + if t = .incidents then incidents.count k else 0 := by
    rw [← h.counter, DelegationMemory.counter, hs]
    rfl
  rw [List.toFinset_card_of_nodup (h.nodup k), length_decidedUnder]
  have hclean := hcounter .cleanApprovals
  have hmodified := hcounter .modifiedApprovals
  have hrejected := hcounter .rejections
  have hescalated := hcounter .escalations
  have hevidence := hcounter .evidenceRequests
  simp [TrustStats.counter] at hclean hmodified hrejected hescalated hevidence
  unfold TrustStats.totalDecisions
  omega

/-! ## Any order -/

/-- Apply decisions one after the other, each with its own times. -/
def replay (times : Vetted → String × String) (m : DelegationMemory) :
    List Vetted → Except PyError DelegationMemory
  | [] => .ok m
  | v :: vs =>
      match v.apply m (times v).1 (times v).2 with
      | (.ok _, m') => replay times m' vs
      | (.error err, _) => .error err

/-- Where no event is decided twice under a key, every decision is accepted. -/
theorem replay_of_nodup (times : Vetted → String × String) {vs' : List Vetted}
    (h : Tallies vs incidents m) (hnodup : ∀ k, (decidedUnder (vs ++ vs') k).Nodup) :
    ∃ m', replay times m vs' = .ok m' ∧ Tallies (vs ++ vs') incidents m' := by
  induction vs' generalizing vs m with
  | nil =>
    rw [List.append_nil]
    exact ⟨m, rfl, h⟩
  | cons v rest ih =>
    have hfresh : v.decision.eventId ∉ m.decided v.key := by
      have hkey := hnodup v.key
      have hone : v.decides? v.key = some v.decision.eventId := if_pos rfl
      unfold decidedUnder at hkey
      rw [List.filterMap_append, List.filterMap_cons_some hone] at hkey
      rw [h.decided]
      intro hmem
      exact (List.nodup_append.mp hkey).2.2 _ hmem _ List.mem_cons_self rfl
    obtain ⟨s, _, happly⟩ :=
      DelegationMemory.applyDecision_of_undecided (times v).1 (times v).2 hfresh
    have happly : v.apply m (times v).1 (times v).2 = (.ok s, _) := happly
    have hsplit : vs ++ v :: rest = vs ++ [v] ++ rest := by simp
    rw [hsplit] at hnodup ⊢
    obtain ⟨m', hrest, htallies⟩ := ih (h.apply (Vetted.applied happly)) hnodup
    refine ⟨m', ?_, htallies⟩
    rw [replay, happly]
    exact hrest

/-- The decisions count the same, and the same events are decided. -/
def SameDecisions (m m' : DelegationMemory) : Prop :=
  ∀ k, (∀ t, t ≠ .incidents → m.counter k t = m'.counter k t) ∧
    (m.decided k).Perm (m'.decided k)

/-- Accepted decisions come to the same in every order. -/
theorem Tallies.any_order (h : Tallies vs incidents m) {order : List Vetted}
    (hperm : order.Perm vs) (times : Vetted → String × String) :
    ∃ m', replay times {} order = .ok m' ∧ SameDecisions m' m := by
  have hdecided (k : StatsKey) : (decidedUnder order k).Perm (decidedUnder vs k) :=
    hperm.filterMap _
  obtain ⟨m', hreplay, htallies⟩ : ∃ m', replay times {} order = .ok m' ∧
      Tallies ([] ++ order) [] m' :=
    replay_of_nodup times tallies_empty fun k => (hdecided k).nodup_iff.mpr (h.nodup k)
  refine ⟨m', hreplay, fun k => ⟨fun t ht => ?_, ?_⟩⟩
  · rw [htallies.counter, h.counter, if_neg ht, if_neg ht, List.nil_append, hperm.countP_eq]
  · rw [htallies.decided, h.decided]
    exact hdecided k

end

/-! ## Turns -/

section

variable {P : Primitives} {F : Type} {cp : ControlPlane P F} {o : Oracle}
variable {S C L : Type} [Store S] [CapabilityStateStore C] [AuditLog L]

/-- The decision that a turn accepts: one that is not refused, on the event that is stored under
its id. -/
def vetted? (y : CpTurn F S C L) : Option Vetted :=
  match y.request.2 with
  | .submitDecision d =>
      if refused y.result then none
      else (getEvent d.eventId y.before.store).map (Vetted.of d)
  | _ => none

/-- The key of the incident that a turn notes. -/
def incident? (y : CpTurn F S C L) : Option StatsKey :=
  match y.request.2 with
  | .recordIncident a w c _ _ => some (key a w c)
  | _ => none

/-- The key that a turn is about. -/
def about? (y : CpTurn F S C L) : Option StatsKey :=
  match y.request.2 with
  | .submitDecision d => (getEvent d.eventId y.before.store).map fun e => (Vetted.of d e).key
  | .recordIncident a w c _ _ => some (key a w c)
  | .recommendFor a w c => some (key a w c)
  | _ => none

/-- The decisions accepted on a replica, one after the other. -/
def vettedOn (replica : Nat) (turns : List (CpTurn F S C L)) : List Vetted :=
  (turns.filter fun y => y.request.1 = replica).filterMap vetted?

/-- The incidents noted on a replica. -/
def incidentsOn (replica : Nat) (turns : List (CpTurn F S C L)) : List StatsKey :=
  (turns.filter fun y => y.request.1 = replica).filterMap incident?

variable [LawfulStore S] [EncodingLedger L] [Arithmetic F]

/-- A decision that is served is refused or vetted. -/
theorem vetting_of_serve {y : CpTurn F S C L} (hy : y = (cp.system o).serve y.before y.request)
    (hknown : EventsKnown (view y.before.store)) {d : ApprovalDecision}
    (hd : y.request.2 = .submitDecision d) :
    Refuses y.request.1 y.before d y.result y.after ∨
      ∃ e, Vets y.request.1 y.before d e y.result y.after := by
  obtain ⟨w, ⟨replica, cmd⟩, calls, result, w'⟩ := y
  obtain rfl : cmd = .submitDecision d := hd
  refine (cp.system o).of_ensures hy (Q := fun result w' => Refuses replica w d result w' ∨
    ∃ e, Vets replica w d e result w') (ensures_bind.mpr ?_)
  refine (ensures_vetting hknown).mono fun result w' hvetting => ?_
  cases result with
  | ok r =>
    rcases hvetting with h | ⟨e, h⟩
    · exact absurd h.refused Bool.false_ne_true
    · exact Or.inr ⟨e, h.counts, rfl, h.applied⟩
  | error err =>
    rcases hvetting with h | ⟨e, h⟩
    · exact Or.inl ⟨h.against, h.refused, h.same⟩
    · exact Or.inr ⟨e, h.counts, h.accepted, h.applied⟩

omit [CapabilityStateStore C] [AuditLog L] [LawfulStore S] [EncodingLedger L] [Arithmetic F] in
/-- A decision is accepted where it is vetted. -/
theorem vetted?_of_vets {y : CpTurn F S C L} {d : ApprovalDecision} {e : WorkflowEvent}
    (hd : y.request.2 = .submitDecision d)
    (h : Vets y.request.1 y.before d e y.result y.after) : vetted? y = some (Vetted.of d e) := by
  unfold vetted?
  rw [hd]
  simp [h.accepted, h.counts.stored]

omit [CapabilityStateStore C] [AuditLog L] [LawfulStore S] [EncodingLedger L] [Arithmetic F] in
theorem vetted?_of_refused {y : CpTurn F S C L} (h : refused y.result = true) :
    vetted? y = none := by
  unfold vetted?
  split
  · rw [if_pos h]
  · rfl

/-- A turn moves the statistics of its replica, and of no other. -/
theorem move_of_serve {y : CpTurn F S C L} (hy : y = (cp.system o).serve y.before y.request)
    (hknown : EventsKnown (view y.before.store)) :
    ∃ m, TrustMove (about? y) (y.before.memories y.request.1) (vetted? y) (incident? y) m ∧
      y.after.memories = Function.update y.before.memories y.request.1 m := by
  by_cases hdecision : ∃ d, y.request.2 = .submitDecision d
  · obtain ⟨d, hd⟩ := hdecision
    have hincident : incident? y = none := by
      unfold incident?
      rw [hd]
    rcases vetting_of_serve hy hknown hd with h | ⟨e, h⟩
    · rw [vetted?_of_refused h.refused, hincident, h.same]
      exact ⟨_, .idle, (Function.update_eq_self _ _).symm⟩
    · obtain ⟨s, m, created, now, happly, hmemories⟩ := h.applied
      have habout : about? y = some (Vetted.of d e).key := by
        unfold about?
        rw [hd]
        simp [h.counts.stored]
      rw [vetted?_of_vets hd h, hincident]
      exact ⟨m, .decision habout happly, hmemories⟩
  · obtain ⟨w, ⟨replica, cmd⟩, calls, result, w'⟩ := y
    -- what the program of the command does to the statistics, its turn does
    have served {I : World S C L → Prop}
        (hp : (cp.body cmd).Ensures (worldHandler o cp.ledgerKeys replica) w fun _ w' => I w') :
        I w' := (cp.system o).of_ensures hy (Q := fun _ w' => I w') hp
    have idle (hcmd : cmd.trustRecord = none) (hrecommend : ∀ a w c, cmd ≠ .recommendFor a w c) :
        w'.memories = Function.update w.memories replica (w.memories replica) := by
      rw [Function.update_eq_self]
      exact served (ensures_keepsMemory (keepsMemory_body hcmd hrecommend) w)
    cases cmd with
    | submitDecision d => exact absurd ⟨d, rfl⟩ hdecision
    | recordIncident a wf c reason actorId =>
      obtain ⟨created, now, hmemories⟩ := served
        (ensures_bind_of_keeps ensures_recordIncident_memories fun _ _ h => h)
      exact ⟨_, .incident rfl, hmemories⟩
    | recommendFor a wf c =>
      have hread : w'.memories = w.memories ∨ ∃ now, w'.memories =
          Function.update w.memories replica ((w.memories replica).get a wf c now).2 := by
        refine served (I := fun w' => w'.memories = w.memories ∨ ∃ now, w'.memories =
          Function.update w.memories replica ((w.memories replica).get a wf c now).2)
            (ensures_bind_of_keeps ?_ fun _ _ h => h)
        refine ensures_recommendFor_reads.mono fun result w' h => ?_
        exact h.imp (fun hrefused => congrArg World.memories hrefused.2.2) fun h => h.2.2
      rcases hread with hsame | ⟨now, hmemories⟩
      · refine ⟨_, .idle, ?_⟩
        rw [Function.update_eq_self]
        exact hsame
      · exact ⟨_, .read rfl, hmemories⟩
    | _ => exact ⟨_, .idle, idle rfl fun _ _ _ h => nomatch h⟩

/-! ## Runs -/

/-- What holds of each turn of a run. -/
structure TurnSound (y : CpTurn F S C L) : Prop where
  /-- The owner of the agent, as registered then, approves nothing of consequence. -/
  impartial : ∀ v ∈ vetted? y, requiresSeparationOfDuties v.authorityClass = true →
    ∃ agent, getAgent v.agentId y.before.store = some agent ∧
      (approves v.decision.outcome = true → v.decision.approverId ≠ agent.ownerId)
  /-- The entries of other keys and the statistics of other replicas stay. -/
  elsewhere : ∀ replica k, (replica = y.request.1 → about? y ≠ some k) →
    Dict.get? (y.after.memories replica).stats k = Dict.get? (y.before.memories replica).stats k
  /-- A decision that is refused changes nothing at all. -/
  refused : ∀ d, y.request.2 = .submitDecision d → refused y.result = true → y.after = y.before
  /-- Where the appends succeed and the stored level can be read, a decision is accepted exactly
  if it returns. -/
  returned : ∀ d, y.request.2 = .submitDecision d →
    (∀ e, getEvent d.eventId y.before.store = some e →
      HasLevel y.before.store e.agentId e.workflowId e.authorityRequested) →
    (∀ c ∈ y.calls, appendFails c = false) →
      ((vetted? y).isSome = true ↔ ∃ r, y.result = .ok (.decided r))

theorem turnSound_of_serve {y : CpTurn F S C L}
    (hy : y = (cp.system o).serve y.before y.request)
    (hknown : EventsKnown (view y.before.store)) (hown : OwnKeys y.before) : TurnSound y where
  impartial := by
    intro v hv hduties
    unfold vetted? at hv
    split at hv
    · rename_i d hd
      rcases vetting_of_serve hy hknown hd with h | ⟨e, h⟩
      · rw [if_pos h.refused] at hv
        cases hv
      · rw [h.accepted, h.counts.stored] at hv
        obtain rfl : Vetted.of d e = v := by simpa using hv
        have hisSome := hknown _ e (getEvent_eq d.eventId y.before.store ▸ h.counts.stored)
        obtain ⟨agent, hagent⟩ := Option.isSome_iff_exists.mp hisSome
        rw [← getAgent_eq] at hagent
        refine ⟨agent, hagent, fun happroves howner => ?_⟩
        have hrejects := h.counts.approver hduties agent hagent howner
        rw [show approves d.outcome = true from happroves] at hrejects
        cases hrejects
    · cases hv
  elsewhere := by
    intro replica k hk
    obtain ⟨m, hmove, hmemories⟩ := move_of_serve hy hknown
    rw [hmemories]
    by_cases hreplica : replica = y.request.1
    · subst hreplica
      rw [Function.update_self]
      exact hmove.elsewhere (hk rfl)
    · rw [Function.update_of_ne hreplica]
  refused := by
    intro d hd hrefused
    rcases vetting_of_serve hy hknown hd with h | ⟨e, h⟩
    · exact h.same
    · rw [h.accepted] at hrefused
      cases hrefused
  returned := by
    intro d hd hlevel happends
    rcases vetting_of_serve hy hknown hd with h | ⟨e, h⟩
    · rw [vetted?_of_refused h.refused]
      refine iff_of_false Bool.false_ne_true fun ⟨r, hr⟩ => ?_
      have hrefused := h.refused
      rw [hr] at hrefused
      cases hrefused
    · rw [vetted?_of_vets hd h]
      refine iff_of_true rfl ?_
      have hbody : (cp.body y.request.2).EnsuresUnless (worldHandler o cp.ledgerKeys y.request.1)
          (fun c => appendFails c = true) y.before fun result _ =>
            ∃ r, result = .ok (.decided r) := by
        rw [hd]
        refine ensuresUnless_bind.mpr ((submitDecision_returns hknown hown h.counts
          (hlevel e h.counts.stored)).mono fun result w' ⟨r, hr⟩ => ?_)
        subst hr
        exact ensuresUnless_done.mpr ⟨r, rfl⟩
      rcases (cp.system o).of_ensuresUnless hy hbody with ⟨c, hc, hfails⟩ | hend
      · rw [happends c hc] at hfails
        cases hfails
      · exact hend

variable {turns : List (CpTurn F S C L)} {w : World S C L}

theorem tallies_of_runs (h : (cp.system o).Runs (World.initial S C L) turns w) (replica : Nat) :
    Tallies (vettedOn replica turns) (incidentsOn replica turns) (w.memories replica) := by
  induction h with
  | nil => exact tallies_empty
  | @snoc turns t h r ih =>
    let y := (cp.system o).serve t r
    obtain ⟨m, hmove, hmemories⟩ := move_of_serve (show y = (cp.system o).serve t r from rfl)
      (eventsKnown_of_runs h)
    show Tallies (vettedOn replica (turns ++ [y])) (incidentsOn replica (turns ++ [y]))
      (y.after.memories replica)
    by_cases hr : y.request.1 = replica
    · have hvetted : vettedOn replica (turns ++ [y]) =
          vettedOn replica turns ++ (vetted? y).toList := by
        unfold vettedOn
        cases hv : vetted? y <;> simp [hr, hv]
      have hincidents : incidentsOn replica (turns ++ [y]) =
          incidentsOn replica turns ++ (incident? y).toList := by
        unfold incidentsOn
        cases hi : incident? y <;> simp [hr, hi]
      rw [hvetted, hincidents, hmemories, hr, Function.update_self]
      exact ih.move (hr ▸ hmove)
    · have hvetted : vettedOn replica (turns ++ [y]) = vettedOn replica turns := by
        simp [vettedOn, hr]
      have hincidents : incidentsOn replica (turns ++ [y]) = incidentsOn replica turns := by
        simp [incidentsOn, hr]
      rw [hvetted, hincidents, hmemories, Function.update_of_ne (Ne.symm hr)]
      exact ih

/-- In every run the statistics of a replica are the fold of the decisions accepted on it.  The
counters are theirs, outcome by outcome, the total of a key is the number of events decided under
it, every order of the decisions comes to the same, and each turn is sound. -/
theorem trust_is_fold_of_vetted (h : (cp.system o).Runs (World.initial S C L) turns w)
    (replica : Nat) :
    Tallies (vettedOn replica turns) (incidentsOn replica turns) (w.memories replica) ∧
      (∀ k s, Dict.get? (w.memories replica).stats k = some s →
        s.totalDecisions = (decidedUnder (vettedOn replica turns) k).toFinset.card) ∧
      (∀ order, order.Perm (vettedOn replica turns) → ∀ times, ∃ m,
        replay times {} order = .ok m ∧ SameDecisions m (w.memories replica)) ∧
      ∀ y ∈ turns, TurnSound y := by
  have htallies := tallies_of_runs h replica
  refine ⟨htallies, fun k s hs => htallies.total hs, fun order hperm times =>
    htallies.any_order hperm times, fun y hy => ?_⟩
  obtain ⟨i, hi⟩ := List.mem_iff_getElem?.mp hy
  obtain ⟨hbefore, hserve, _⟩ := h.getElem? hi
  exact turnSound_of_serve hserve (eventsKnown_of_runs hbefore) (ownKeys_of_runs hbefore)

end

/-! ### Two decisions, a replay and an incident -/

/-- Two decisions, a replay of the first one and an incident. -/
def trustDemo : List (Nat × Command) :=
  [(0, .registerAgent demoAgent),
    (0, .proposeEvent (demoEvent false)),
    (0, .submitDecision (demoDecision [])),
    (0, .proposeEvent { demoEvent false with eventId := "evt_2", nonce := "n2" }),
    (0, .submitDecision { demoDecision [] with eventId := "evt_2", outcome := .approved }),
    (0, .submitDecision { demoDecision [] with outcome := .approved }),
    (0, .recordIncident "agent" "claims" .modifyInternalRecord "slip" "owner")]

/-- The replay is not counted, and the incident apart. -/
theorem two_decisions_and_an_incident :
    ∃ turns w, storingSystem.Runs (World.initial _ _ _) turns w ∧
      (vettedOn 0 turns).map (fun v => v.decision.outcome) = [.modifiedAndApproved, .approved] ∧
      incidentsOn 0 turns = [key "agent" "claims" .modifyInternalRecord] ∧
      Tallies (vettedOn 0 turns) (incidentsOn 0 turns) (w.memories 0) ∧
      ∀ y ∈ turns, TurnSound y := by
  have hrun := runs_history (S := storingSystem) (World.initial _ _ _) trustDemo
  have hvetted : (vettedOn 0 (storingSystem.history (World.initial _ _ _) trustDemo)).map
      (fun v => v.decision.outcome) = [.modifiedAndApproved, .approved] := by
    decide +kernel
  have hincidents : incidentsOn 0 (storingSystem.history (World.initial _ _ _) trustDemo) =
      [key "agent" "claims" .modifyInternalRecord] := by
    decide +kernel
  generalize storingSystem.final (World.initial _ _ _) trustDemo = w at hrun
  generalize storingSystem.history (World.initial _ _ _) trustDemo = turns
    at hrun hvetted hincidents
  obtain ⟨htallies, _, _, hsound⟩ := trust_is_fold_of_vetted hrun 0
  exact ⟨turns, w, hrun, hvetted, hincidents, htallies, hsound⟩

end EarnedAutonomy
