import EarnedAutonomy.Core.CapabilityStore
import EarnedAutonomy.Lib.Simulation
import Mathlib.Data.List.Nodup

/-!
# The capability backends agree

The in-memory backend keeps a map and two sets, the database one row for each token.
They differ about tokens that are not on record, so callers have to keep to
`tokenProtocol`: an id is recorded once, before any other use, and is not used again
after a purge has removed it.

* `rowOf` is the row that the map and the sets stand for, and `SameTokens` says that
  the table has these rows and that nothing else is marked.
* `backends_agree`: under the protocol both give the same answers.
-/

namespace EarnedAutonomy

open OrderedDict Simulation

/-! ## Operations -/

/-- A call of a `CapabilityStateStore`. -/
inductive CapOp where
  | recordIssued (tokenId : String) (entry : IssuedEntry)
  | tryConsume (tokenId : String)
  | isConsumed (tokenId : String)
  | revoke (tokenId : String)
  | isRevoked (tokenId : String)
  | revokeScope (agentId workflowId authorityValue : String)
  | purgeExpired (now : String)

/-- What a call returns. -/
inductive CapReply where
  | done
  | flag (b : Bool)
  | count (n : Nat)
  deriving DecidableEq

/-- A call on a backend. -/
def CapOp.run {C : Type} [CapabilityStateStore C] : CapOp → C → CapReply × C
  | .recordIssued t entry, s => (.done, CapabilityStateStore.recordIssued t entry s)
  | .tryConsume t, s =>
      let (b, s) := CapabilityStateStore.tryConsume t s
      (.flag b, s)
  | .isConsumed t, s => (.flag (CapabilityStateStore.isConsumed t s), s)
  | .revoke t, s => (.done, CapabilityStateStore.revoke t s)
  | .isRevoked t, s => (.flag (CapabilityStateStore.isRevoked t s), s)
  | .revokeScope a w c, s =>
      let (n, s) := CapabilityStateStore.revokeScope a w c s
      (.count n, s)
  | .purgeExpired now, s =>
      let (n, s) := CapabilityStateStore.purgeExpired now s
      (.count n, s)

/-- The tokens on record, and every id that was recorded at some time. -/
structure TokenIds where
  live : Dict String IssuedEntry
  recorded : List String

/-- An id is recorded once.  It is used after that, and until a purge removes it. -/
def tokenProtocol : Protocol TokenIds CapOp where
  allowed ids
    | .recordIssued t _ => t ∉ ids.recorded
    | .tryConsume t | .isConsumed t | .revoke t | .isRevoked t => t ∈ ids.live.map Prod.fst
    | .revokeScope _ _ _ | .purgeExpired _ => True
  next ids
    | .recordIssued t entry => ⟨ids.live ++ [(t, entry)], t :: ids.recorded⟩
    | .purgeExpired now => { ids with live := ids.live.filter fun e => !(e.2.expiresAt < now) }
    | _ => ids

/-! ## The rows of the in-memory backend -/

/-- The row that the map and the marks of a token stand for. -/
def rowOf (m : InMemoryCapabilityStore) (e : String × IssuedEntry) : String × TokenRow :=
  (e.1, ⟨e.2, decide (e.1 ∈ m.consumed), decide (e.1 ∈ m.revoked)⟩)

/-- The backends have the same tokens on record with the same marks, and no id is
marked that is not on record. -/
structure SameTokens (ids : TokenIds) (m : InMemoryCapabilityStore) (s : SqlCapabilityStore) :
    Prop where
  live : m.issued = ids.live
  recorded : ∀ t ∈ ids.live.map Prod.fst, t ∈ ids.recorded
  rows : s.rows = m.issued.map (rowOf m)
  consumed : ∀ t ∈ m.consumed, t ∈ ids.live.map Prod.fst
  revoked : ∀ t ∈ m.revoked, t ∈ ids.live.map Prod.fst

section

variable {ids : TokenIds} {m : InMemoryCapabilityStore} {s : SqlCapabilityStore}

theorem get?_rowOf (m : InMemoryCapabilityStore) (d : Dict String IssuedEntry) (t : String) :
    Dict.get? (d.map (rowOf m)) t =
      (Dict.get? d t).map fun e => ⟨e, decide (t ∈ m.consumed), decide (t ∈ m.revoked)⟩ := by
  induction d with
  | nil => rfl
  | cons e rest ih =>
    rw [List.map_cons, rowOf, Dict.get?_cons, Dict.get?_cons, ih]
    split
    · rename_i hkey
      rw [hkey, Option.map_some]
    · rfl

/-- The row of a token on record. -/
theorem SameTokens.row (h : SameTokens ids m s) {t : String} (ht : t ∈ ids.live.map Prod.fst) :
    ∃ e, s.row? t = some ⟨e, decide (t ∈ m.consumed), decide (t ∈ m.revoked)⟩ := by
  cases hget : Dict.get? m.issued t with
  | none =>
    rw [Dict.get?_eq_none_iff, h.live] at hget
    exact absurd ht hget
  | some e =>
    refine ⟨e, ?_⟩
    rw [SqlCapabilityStore.row?, h.rows, get?_rowOf, hget, Option.map_some]

/-- Marking the rows in place follows the marks in memory. -/
theorem SameTokens.rows_update (h : SameTokens ids m s) {m' : InMemoryCapabilityStore}
    {f : String → TokenRow → TokenRow} (hissued : m'.issued = m.issued)
    (hf : ∀ e ∈ m.issued, (e.1, f e.1 (rowOf m e).2) = rowOf m' e) :
    (s.update f).rows = m'.issued.map (rowOf m') := by
  show s.rows.map (fun r => (r.1, f r.1 r.2)) = _
  rw [h.rows, hissued, List.map_map]
  exact List.map_congr_left hf

/-! ## Each operation -/

theorem SameTokens.recordIssued (h : SameTokens ids m s) {t : String} (entry : IssuedEntry)
    (ht : t ∉ ids.recorded) : SameTokens ⟨ids.live ++ [(t, entry)], t :: ids.recorded⟩
      (m.recordIssued t entry) (s.recordIssued t entry) := by
  have hlive : t ∉ ids.live.map Prod.fst := fun hmem => ht (h.recorded t hmem)
  have hset : (m.recordIssued t entry).issued = m.issued ++ [(t, entry)] :=
    Dict.set_eq_append (h.live ▸ hlive) entry
  have hkey : t ∉ s.rows.map Prod.fst := by
    rw [h.rows, List.map_map, h.live]
    exact hlive
  have hfresh : rowOf m (t, entry) = (t, ⟨entry, false, false⟩) := by
    simp only [rowOf, Prod.mk.injEq, TokenRow.mk.injEq, decide_eq_false_iff_not, true_and]
    exact ⟨fun hmem => hlive (h.consumed t hmem), fun hmem => hlive (h.revoked t hmem)⟩
  refine ⟨by rw [hset, h.live], fun u hu => ?_, ?_, fun u hu => ?_, fun u hu => ?_⟩
  · rw [List.map_append, List.mem_append] at hu
    rcases hu with hu | hu
    · exact List.mem_cons_of_mem _ (h.recorded u hu)
    · rw [List.mem_singleton.mp hu]
      exact List.mem_cons_self
  · show Dict.setdefault s.rows t ⟨entry, false, false⟩ = _
    unfold Dict.setdefault
    rw [Dict.get?_eq_none_iff.mpr hkey, hset, List.map_append, List.map_singleton]
    show Dict.set s.rows t ⟨entry, false, false⟩ = m.issued.map (rowOf m) ++ [rowOf m (t, entry)]
    rw [Dict.set_eq_append hkey, h.rows, hfresh]
  · rw [List.map_append]
    exact List.mem_append_left _ (h.consumed u hu)
  · rw [List.map_append]
    exact List.mem_append_left _ (h.revoked u hu)

theorem SameTokens.isConsumed (h : SameTokens ids m s) {t : String}
    (ht : t ∈ ids.live.map Prod.fst) : m.isConsumed t = s.isConsumed t := by
  obtain ⟨e, hrow⟩ := h.row ht
  unfold SqlCapabilityStore.isConsumed
  rw [show Dict.get? s.rows t = _ from hrow]
  rfl

theorem SameTokens.isRevoked (h : SameTokens ids m s) {t : String}
    (ht : t ∈ ids.live.map Prod.fst) : m.isRevoked t = s.isRevoked t := by
  obtain ⟨e, hrow⟩ := h.row ht
  unfold SqlCapabilityStore.isRevoked
  rw [show Dict.get? s.rows t = _ from hrow]
  rfl

theorem SameTokens.tryConsume (h : SameTokens ids m s) {t : String}
    (ht : t ∈ ids.live.map Prod.fst) : (m.tryConsume t).1 = (s.tryConsume t).1 ∧
      SameTokens ids (m.tryConsume t).2 (s.tryConsume t).2 := by
  obtain ⟨e, hrow⟩ := h.row ht
  have hanswer := s.tryConsume_eq_true_iff t
  simp only [hrow, Option.some.injEq, exists_eq_left', decide_eq_false_iff_not] at hanswer
  unfold InMemoryCapabilityStore.tryConsume
  by_cases hmarked : t ∈ m.consumed ∨ t ∈ m.revoked
  · rw [if_pos hmarked]
    refine ⟨?_, h.live, h.recorded, ?_, h.consumed, h.revoked⟩
    · rw [eq_comm, Bool.eq_false_iff, Ne, hanswer]
      exact fun ⟨hconsumed, hrevoked⟩ => hmarked.elim hconsumed hrevoked
    · refine h.rows_update rfl fun d _ => ?_
      by_cases hkey : d.1 = t
      · subst hkey
        rcases hmarked with hconsumed | hrevoked
        · simp [rowOf, hconsumed]
        · simp [rowOf, hrevoked]
      · simp [rowOf, hkey]
  · rw [if_neg hmarked]
    obtain ⟨hconsumed, hrevoked⟩ := not_or.mp hmarked
    refine ⟨(hanswer.mpr ⟨hconsumed, hrevoked⟩).symm, h.live, h.recorded, ?_, fun u hu => ?_,
      h.revoked⟩
    · refine h.rows_update rfl fun d _ => ?_
      by_cases hkey : d.1 = t
      · simp [rowOf, hkey, hconsumed, hrevoked]
      · simp [rowOf, hkey]
    · rcases List.mem_cons.mp hu with rfl | hu
      · exact ht
      · exact h.consumed u hu

theorem SameTokens.revoke (h : SameTokens ids m s) {t : String}
    (ht : t ∈ ids.live.map Prod.fst) : SameTokens ids (m.revoke t) (s.revoke t) := by
  refine ⟨h.live, h.recorded, ?_, h.consumed, fun u hu => ?_⟩
  · refine h.rows_update rfl fun d _ => ?_
    have hmem := InMemoryCapabilityStore.mem_revoked_revoke m t d.1
    have hconsumed : (m.revoke t).consumed = m.consumed := rfl
    simp only [rowOf, hmem, hconsumed]
    by_cases hkey : d.1 = t
    · simp [hkey]
    · simp [hkey]
  · rcases (InMemoryCapabilityStore.mem_revoked_revoke m t u).mp hu with rfl | hu
    · exact ht
    · exact h.revoked u hu

/-- Both count the unmarked tokens of the scope. -/
theorem SameTokens.revokeScope (h : SameTokens ids m s) (a w c : String) :
    (m.revokeScope a w c).1 = (s.revokeScope a w c).1 ∧
      SameTokens ids (m.revokeScope a w c).2 (s.revokeScope a w c).2 := by
  have hmem (t : String) : t ∈ (m.revokeScope a w c).2.revoked ↔
      (∃ e, (t, e) ∈ m.issued ∧ e.inScope a w c = true ∧ t ∉ m.revoked ∧ t ∉ m.consumed) ∨
        t ∈ m.revoked := by
    simp only [InMemoryCapabilityStore.revokeScope, List.mem_append, List.mem_map,
      List.mem_filter, Bool.and_eq_true, decide_eq_true_eq]
    refine or_congr_left ⟨?_, ?_⟩
    · rintro ⟨⟨_, e⟩, ⟨he, ⟨hscope, hr⟩, hc⟩, rfl⟩
      exact ⟨e, he, hscope, hr, hc⟩
    · intro ⟨e, he, hscope, hr, hc⟩
      exact ⟨(t, e), ⟨he, ⟨hscope, hr⟩, hc⟩, rfl⟩
  refine ⟨?_, h.live, h.recorded, ?_, h.consumed, fun u hu => ?_⟩
  · unfold InMemoryCapabilityStore.revokeScope SqlCapabilityStore.revokeScope
    dsimp only
    rw [h.rows, List.filter_map, List.length_map]
    congr 2
    funext d
    simp [rowOf]
  · refine h.rows_update rfl fun d hd => ?_
    have hentry (e : IssuedEntry) (he : (d.1, e) ∈ m.issued) : e = d.2 := by
      have hsame := (Dict.get?_eq_some_iff m.nodup).mpr he
      rw [(Dict.get?_eq_some_iff m.nodup).mpr hd] at hsame
      exact (Option.some.inj hsame).symm
    have hhit : d.1 ∈ (m.revokeScope a w c).2.revoked ↔
        (d.2.inScope a w c = true ∧ d.1 ∉ m.revoked ∧ d.1 ∉ m.consumed) ∨ d.1 ∈ m.revoked := by
      rw [hmem]
      refine or_congr_left ⟨fun ⟨e, he, hscope⟩ => hentry e he ▸ hscope, fun hscope => ?_⟩
      exact ⟨d.2, hd, hscope⟩
    simp only [rowOf, Prod.mk.injEq, true_and, hhit]
    by_cases hscope : d.2.inScope a w c = true <;> by_cases hr : d.1 ∈ m.revoked <;>
      by_cases hc : d.1 ∈ m.consumed <;>
      simp [hscope, hr, hc, InMemoryCapabilityStore.revokeScope]
  · rcases (hmem u).mp hu with ⟨e, he, _⟩ | hu
    · rw [← h.live]
      exact List.mem_map.mpr ⟨_, he, rfl⟩
    · exact h.revoked u hu

/-- A purge removes the same tokens, and in memory their marks. -/
theorem SameTokens.purgeExpired (h : SameTokens ids m s) (now : String) :
    (m.purgeExpired now).1 = (s.purgeExpired now).1 ∧
      SameTokens { ids with live := ids.live.filter fun e => !(e.2.expiresAt < now) }
        (m.purgeExpired now).2 (s.purgeExpired now).2 := by
  have hkept (t : String) (ht : t ∈ ids.live.map Prod.fst)
      (hnot : t ∉ (m.issued.filter fun e => e.2.expiresAt < now).map Prod.fst) :
      t ∈ (ids.live.filter fun e => !(e.2.expiresAt < now)).map Prod.fst := by
    obtain ⟨d, hd, rfl⟩ := List.mem_map.mp ht
    refine List.mem_map.mpr ⟨d, List.mem_filter.mpr ⟨hd, ?_⟩, rfl⟩
    rw [← h.live] at hd
    rw [Bool.not_eq_true', decide_eq_false_iff_not]
    intro hexpired
    exact hnot (List.mem_map.mpr ⟨d, List.mem_filter.mpr ⟨hd, decide_eq_true hexpired⟩, rfl⟩)
  refine ⟨?_, ?_, fun t ht => ?_, ?_, fun t ht => ?_, fun t ht => ?_⟩
  · unfold InMemoryCapabilityStore.purgeExpired SqlCapabilityStore.purgeExpired
    dsimp only
    rw [h.rows, List.filter_map, List.length_map, List.length_map]
    rfl
  · show m.issued.filter _ = _
    rw [h.live]
  · exact h.recorded t ((List.filter_sublist.map _).subset ht)
  · show s.rows.filter _ = (m.issued.filter _).map _
    rw [h.rows, List.filter_map]
    refine List.map_congr_left fun d hd => ?_
    -- a token that stays on record keeps its marks
    have hstays : d.1 ∉ (m.issued.filter fun e => e.2.expiresAt < now).map Prod.fst := by
      intro hmem
      obtain ⟨d', hd', hkey⟩ := List.mem_map.mp hmem
      obtain ⟨hissued, hexpired⟩ := List.mem_filter.mp hd'
      obtain ⟨hd, hfresh⟩ := List.mem_filter.mp hd
      obtain rfl := List.inj_on_of_nodup_map m.nodup hissued hd hkey
      simp_all [rowOf]
    simp only [rowOf, InMemoryCapabilityStore.purgeExpired, List.mem_filter, hstays,
      not_false_eq_true, decide_true, and_true]
  · obtain ⟨hmem, hnot⟩ := List.mem_filter.mp ht
    exact hkept t (h.consumed t hmem) (by simpa using hnot)
  · obtain ⟨hmem, hnot⟩ := List.mem_filter.mp ht
    exact hkept t (h.revoked t hmem) (by simpa using hnot)

end

/-! ## Every sequence of operations -/

/-- The rows stand for the map and the sets as long as callers keep to the protocol. -/
theorem simulates_sameTokens : Simulates tokenProtocol
    (CapOp.run (C := InMemoryCapabilityStore)) (CapOp.run (C := SqlCapabilityStore))
    SameTokens where
  answer {ids m s op} h hallowed := by
    cases op with
    | recordIssued t entry => rfl
    | tryConsume t => exact congrArg CapReply.flag (h.tryConsume hallowed).1
    | isConsumed t => exact congrArg CapReply.flag (h.isConsumed hallowed)
    | revoke t => rfl
    | isRevoked t => exact congrArg CapReply.flag (h.isRevoked hallowed)
    | revokeScope a w c => exact congrArg CapReply.count (h.revokeScope a w c).1
    | purgeExpired now => exact congrArg CapReply.count (h.purgeExpired now).1
  keeps {ids m s op} h hallowed := by
    cases op with
    | recordIssued t entry => exact h.recordIssued entry hallowed
    | tryConsume t => exact (h.tryConsume hallowed).2
    | isConsumed t => exact h
    | revoke t => exact h.revoke hallowed
    | isRevoked t => exact h
    | revokeScope a w c => exact (h.revokeScope a w c).2
    | purgeExpired now => exact (h.purgeExpired now).2

/-- Under the protocol, both backends give the same answers to every sequence of
calls. -/
theorem backends_agree (ops : List CapOp) (h : tokenProtocol.Admits ⟨[], []⟩ ops) :
    answers CapOp.run InMemoryCapabilityStore.empty ops =
      answers CapOp.run SqlCapabilityStore.empty ops := by
  apply simulates_sameTokens.answers_eq _ h
  constructor
  · rfl
  · intro t ht
    cases ht
  · rfl
  · intro t ht
    cases ht
  · intro t ht
    cases ht

/-- A token is consumed, another revoked with its scope, and both are purged. -/
def tokenCalls : List CapOp := [
  .recordIssued "a" ⟨"agent", "claims", "read", "2026-01-01"⟩,
  .recordIssued "b" ⟨"agent", "claims", "read", "2026-01-02"⟩,
  .tryConsume "a", .tryConsume "a", .isConsumed "a", .revoke "a", .isRevoked "a",
  .revokeScope "agent" "claims" "read", .isRevoked "b", .tryConsume "b",
  .purgeExpired "2026-02-01", .revokeScope "agent" "claims" "read"]

theorem tokenCalls_agree : answers CapOp.run InMemoryCapabilityStore.empty tokenCalls =
    answers CapOp.run SqlCapabilityStore.empty tokenCalls := by
  apply backends_agree
  simp [tokenCalls, Protocol.Admits, tokenProtocol]

end EarnedAutonomy
