import EarnedAutonomy.Lib.Dict

/-!
# Capability state

The state behind capability tokens, `core/capability_store.py`: which tokens
were issued, consumed and revoked.

* `CapabilityStateStore` is the interface.  Every operation is atomic: one
  transaction of the database or one critical section of the lock.
* `InMemoryCapabilityStore` keeps a map of issued tokens and two sets.
* `SqlCapabilityStore` keeps one row for each token.
* `LawfulCapabilityStore` is what both promise about revocation.  The results
  that hold for either backend use these laws alone.

The backends differ where the interface does not look: in memory a token can
be consumed that was never issued or whose marks were purged, in the database
it needs its row.
-/

namespace EarnedAutonomy

open OrderedDict

/-- The scope and expiry a token was issued with. -/
structure IssuedEntry where
  agentId : String
  workflowId : String
  authorityValue : String
  expiresAt : String
  deriving DecidableEq

/-- The entry was issued for this agent, workflow and authority class. -/
def IssuedEntry.inScope (e : IssuedEntry) (agentId workflowId authorityValue : String) : Bool :=
  e.agentId = agentId && e.workflowId = workflowId && e.authorityValue = authorityValue

/-- `CapabilityStateStore` -/
class CapabilityStateStore (C : Type) where
  empty : C
  recordIssued : String → IssuedEntry → C → C
  tryConsume : String → C → Bool × C
  isConsumed : String → C → Bool
  revoke : String → C → C
  isRevoked : String → C → Bool
  revokeScope : String → String → String → C → Nat × C
  purgeExpired : String → C → Nat × C
  /-- What is on record for a token, for statements about it. -/
  issued? : C → String → Option IssuedEntry

/-! ## The in-memory backend -/

/-- `InMemoryCapabilityStore` -/
structure InMemoryCapabilityStore where
  issued : Dict String IssuedEntry
  consumed : List String
  revoked : List String
  nodup : (issued.map Prod.fst).Nodup

namespace InMemoryCapabilityStore

def empty : InMemoryCapabilityStore := ⟨[], [], [], List.nodup_nil⟩

def recordIssued (tokenId : String) (entry : IssuedEntry) (s : InMemoryCapabilityStore) :
    InMemoryCapabilityStore :=
  ⟨Dict.set s.issued tokenId entry, s.consumed, s.revoked, Dict.nodup_set s.nodup _ _⟩

/-- Consume unless a mark is there.  The token need not be on record. -/
def tryConsume (tokenId : String) (s : InMemoryCapabilityStore) :
    Bool × InMemoryCapabilityStore :=
  if tokenId ∈ s.consumed ∨ tokenId ∈ s.revoked then (false, s)
  else (true, { s with consumed := tokenId :: s.consumed })

def isConsumed (tokenId : String) (s : InMemoryCapabilityStore) : Bool := tokenId ∈ s.consumed

def revoke (tokenId : String) (s : InMemoryCapabilityStore) : InMemoryCapabilityStore :=
  { s with revoked := if tokenId ∈ s.revoked then s.revoked else tokenId :: s.revoked }

def isRevoked (tokenId : String) (s : InMemoryCapabilityStore) : Bool := tokenId ∈ s.revoked

/-- Revoke the tokens of a scope that have no mark, and count them. -/
def revokeScope (agentId workflowId authorityValue : String) (s : InMemoryCapabilityStore) :
    Nat × InMemoryCapabilityStore :=
  let hits := s.issued.filter fun e =>
    e.2.inScope agentId workflowId authorityValue && e.1 ∉ s.revoked && e.1 ∉ s.consumed
  (hits.length, { s with revoked := hits.map Prod.fst ++ s.revoked })

/-- Drop every trace of the tokens on record that expired, and count them. -/
def purgeExpired (now : String) (s : InMemoryCapabilityStore) : Nat × InMemoryCapabilityStore :=
  let expired := (s.issued.filter fun e => e.2.expiresAt < now).map Prod.fst
  (expired.length, {
    issued := s.issued.filter fun e => !(e.2.expiresAt < now)
    consumed := s.consumed.filter (· ∉ expired)
    revoked := s.revoked.filter (· ∉ expired)
    nodup := List.Nodup.sublist (List.Sublist.map Prod.fst List.filter_sublist) s.nodup })

instance : CapabilityStateStore InMemoryCapabilityStore where
  empty := empty
  recordIssued := recordIssued
  tryConsume := tryConsume
  isConsumed := isConsumed
  revoke := revoke
  isRevoked := isRevoked
  revokeScope := revokeScope
  purgeExpired := purgeExpired
  issued? s tokenId := Dict.get? s.issued tokenId

end InMemoryCapabilityStore

/-! ## The database backend -/

/-- The columns of a token's row besides its id. -/
structure TokenRow where
  entry : IssuedEntry
  consumed : Bool
  revoked : Bool
  deriving DecidableEq

/-- `SqlCapabilityStore`: the table `capability_tokens`, with the token id as
its primary key. -/
structure SqlCapabilityStore where
  rows : Dict String TokenRow
  nodup : (rows.map Prod.fst).Nodup

namespace SqlCapabilityStore

/-- Change rows in place, as an `UPDATE` does. -/
def update (f : String → TokenRow → TokenRow) (s : SqlCapabilityStore) : SqlCapabilityStore where
  rows := s.rows.map fun r => (r.1, f r.1 r.2)
  nodup := by
    rw [List.map_map]
    exact s.nodup

def empty : SqlCapabilityStore := ⟨[], List.nodup_nil⟩

/-- Insert an unmarked row.  A row with the id already there stays as it is. -/
def recordIssued (tokenId : String) (entry : IssuedEntry) (s : SqlCapabilityStore) :
    SqlCapabilityStore where
  rows := Dict.setdefault s.rows tokenId ⟨entry, false, false⟩
  nodup := by
    unfold Dict.setdefault
    split
    · exact s.nodup
    · exact Dict.nodup_set s.nodup _ _

/-- `UPDATE .. SET consumed WHERE token_id = :id AND NOT consumed AND NOT revoked`,
and whether a row was hit. -/
def tryConsume (tokenId : String) (s : SqlCapabilityStore) : Bool × SqlCapabilityStore :=
  let hit (key : String) (r : TokenRow) : Bool := key = tokenId && !r.consumed && !r.revoked
  ((s.rows.filter fun r => hit r.1 r.2).length = 1,
    s.update fun key r => if hit key r then { r with consumed := true } else r)

def isConsumed (tokenId : String) (s : SqlCapabilityStore) : Bool :=
  match Dict.get? s.rows tokenId with
  | some r => r.consumed
  | none => false

def revoke (tokenId : String) (s : SqlCapabilityStore) : SqlCapabilityStore :=
  s.update fun key r => if key = tokenId then { r with revoked := true } else r

def isRevoked (tokenId : String) (s : SqlCapabilityStore) : Bool :=
  match Dict.get? s.rows tokenId with
  | some r => r.revoked
  | none => false

def revokeScope (agentId workflowId authorityValue : String) (s : SqlCapabilityStore) :
    Nat × SqlCapabilityStore :=
  let hit (r : TokenRow) : Bool :=
    r.entry.inScope agentId workflowId authorityValue && !r.revoked && !r.consumed
  ((s.rows.filter fun r => hit r.2).length,
    s.update fun _ r => if hit r then { r with revoked := true } else r)

def purgeExpired (now : String) (s : SqlCapabilityStore) : Nat × SqlCapabilityStore :=
  ((s.rows.filter fun r => r.2.entry.expiresAt < now).length, {
    rows := s.rows.filter fun r => !(r.2.entry.expiresAt < now)
    nodup := List.Nodup.sublist (List.Sublist.map Prod.fst List.filter_sublist) s.nodup })

instance : CapabilityStateStore SqlCapabilityStore where
  empty := empty
  recordIssued := recordIssued
  tryConsume := tryConsume
  isConsumed := isConsumed
  revoke := revoke
  isRevoked := isRevoked
  revokeScope := revokeScope
  purgeExpired := purgeExpired
  issued? s tokenId := (Dict.get? s.rows tokenId).map TokenRow.entry

/-- The row of a token. -/
def row? (s : SqlCapabilityStore) (tokenId : String) : Option TokenRow :=
  Dict.get? s.rows tokenId

/-! ### What each operation does to one row -/

theorem row?_update (f : String → TokenRow → TokenRow) (s : SqlCapabilityStore)
    (tokenId : String) : (s.update f).row? tokenId = (s.row? tokenId).map (f tokenId) := by
  have hmap : ∀ d : Dict String TokenRow,
      Dict.get? (d.map fun r => (r.1, f r.1 r.2)) tokenId =
        (Dict.get? d tokenId).map (f tokenId) := by
    intro d
    induction d with
    | nil => rfl
    | cons e rest ih =>
      obtain ⟨k, r⟩ := e
      simp only [List.map_cons, Dict.get?_cons]
      split
      · rename_i h
        rw [h, Option.map_some]
      · exact ih
  exact hmap s.rows

theorem row?_recordIssued (s : SqlCapabilityStore) (t tokenId : String) (entry : IssuedEntry) :
    (s.recordIssued t entry).row? tokenId =
      if t = tokenId then some ((s.row? t).getD ⟨entry, false, false⟩) else s.row? tokenId :=
  Dict.get?_setdefault _ _ _ _

theorem row?_revoke (s : SqlCapabilityStore) (t tokenId : String) :
    (s.revoke t).row? tokenId =
      (s.row? tokenId).map fun r => if tokenId = t then { r with revoked := true } else r :=
  row?_update _ _ _

theorem row?_purgeExpired (s : SqlCapabilityStore) (now tokenId : String) :
    (s.purgeExpired now).2.row? tokenId =
      (s.row? tokenId).filter fun r => !(r.entry.expiresAt < now) :=
  Dict.get?_filter s.nodup _ _

theorem row?_revokeScope (s : SqlCapabilityStore) (a w c tokenId : String) :
    (s.revokeScope a w c).2.row? tokenId =
      (s.row? tokenId).map fun r =>
        if r.entry.inScope a w c && !r.revoked && !r.consumed then { r with revoked := true }
        else r :=
  row?_update _ _ _

theorem row?_tryConsume (s : SqlCapabilityStore) (t tokenId : String) :
    (s.tryConsume t).2.row? tokenId =
      (s.row? tokenId).map fun r =>
        if tokenId = t && !r.consumed && !r.revoked then { r with consumed := true } else r :=
  row?_update _ _ _

private theorem filter_key_eq (d : Dict String TokenRow) (hd : (d.map Prod.fst).Nodup)
    (t : String) (p : TokenRow → Bool) :
    (d.filter fun r => decide (r.1 = t) && p r.2) =
      ((Dict.get? d t).filter p).toList.map fun r => (t, r) := by
  induction d with
  | nil => rfl
  | cons e rest ih =>
    obtain ⟨k, r⟩ := e
    have hcons : k ∉ rest.map Prod.fst ∧ (rest.map Prod.fst).Nodup := by
      simpa using List.nodup_cons.mp hd
    by_cases hk : k = t
    · subst hk
      have hnone : Dict.get? rest k = none := by
        cases hget : Dict.get? rest k with
        | none => rfl
        | some v => exact absurd (List.mem_map.mpr ⟨_, Dict.mem_of_get? hget, rfl⟩) hcons.1
      have ih := ih hcons.2
      rw [hnone] at ih
      cases hp : p r <;> simp [hp, ih, Option.filter]
    · simp [hk, ih hcons.2]

/-- A consume succeeds exactly on an unmarked row. -/
theorem tryConsume_eq_true_iff (s : SqlCapabilityStore) (t : String) :
    (s.tryConsume t).1 = true ↔
      ∃ r, s.row? t = some r ∧ r.consumed = false ∧ r.revoked = false := by
  have hfilter := filter_key_eq s.rows s.nodup t fun r => !r.consumed && !r.revoked
  simp only [tryConsume, Bool.and_assoc, hfilter, row?, decide_eq_true_eq]
  cases Dict.get? s.rows t with
  | none => simp
  | some r => cases hc : r.consumed <;> cases hr : r.revoked <;> simp [Option.filter, hc, hr]

end SqlCapabilityStore

/-! ## What both backends promise about revocation -/

open CapabilityStateStore

/-- The laws of revocation.  A token is on record from the moment it is issued
until a purge finds it expired, and a revocation mark stays as long. -/
class LawfulCapabilityStore (C : Type) [CapabilityStateStore C] : Prop where
  issued?_empty : ∀ t, issued? (empty : C) t = none
  issued?_recordIssued_ne : ∀ (s : C) t entry u, t ≠ u →
    issued? (recordIssued t entry s) u = issued? s u
  /-- A token recorded again keeps its record or gets the new one. -/
  issued?_recordIssued_self : ∀ (s : C) t entry,
    issued? (recordIssued t entry s) t = some entry ∨
      (issued? s t).isSome ∧ issued? (recordIssued t entry s) t = issued? s t
  issued?_tryConsume : ∀ (s : C) t u, issued? (tryConsume t s).2 u = issued? s u
  issued?_revoke : ∀ (s : C) t u, issued? (revoke t s) u = issued? s u
  issued?_revokeScope : ∀ (s : C) a w c u, issued? (revokeScope a w c s).2 u = issued? s u
  issued?_purgeExpired : ∀ (s : C) now u, issued? (purgeExpired now s).2 u =
    (issued? s u).filter fun e => !(e.expiresAt < now)
  isRevoked_recordIssued : ∀ (s : C) t entry u, isRevoked u s = true →
    isRevoked u (recordIssued t entry s) = true
  isRevoked_tryConsume : ∀ (s : C) t u, isRevoked u (tryConsume t s).2 = isRevoked u s
  isRevoked_revoke : ∀ (s : C) t u, isRevoked u s = true → isRevoked u (revoke t s) = true
  isRevoked_revokeScope : ∀ (s : C) a w c u, isRevoked u s = true →
    isRevoked u (revokeScope a w c s).2 = true
  /-- A purge drops a mark only together with an expired record. -/
  isRevoked_purgeExpired : ∀ (s : C) now u, isRevoked u s = true →
    isRevoked u (purgeExpired now s).2 = true ∨
      ∃ e, issued? s u = some e ∧ e.expiresAt < now
  isRevoked_revoke_self : ∀ (s : C) t, (issued? s t).isSome → isRevoked t (revoke t s) = true
  isRevoked_revokeScope_self : ∀ (s : C) t e, issued? s t = some e → isConsumed t s = false →
    isRevoked t (revokeScope e.agentId e.workflowId e.authorityValue s).2 = true
  /-- A revoked token cannot be consumed. -/
  tryConsume_of_isRevoked : ∀ (s : C) t, isRevoked t s = true → (tryConsume t s).1 = false

theorem IssuedEntry.inScope_self (e : IssuedEntry) :
    e.inScope e.agentId e.workflowId e.authorityValue = true := by
  simp [IssuedEntry.inScope]

namespace InMemoryCapabilityStore

theorem isRevoked_iff (s : InMemoryCapabilityStore) (t : String) :
    CapabilityStateStore.isRevoked t s = true ↔ t ∈ s.revoked := decide_eq_true_iff

theorem isConsumed_eq_false_iff (s : InMemoryCapabilityStore) (t : String) :
    CapabilityStateStore.isConsumed t s = false ↔ t ∉ s.consumed := decide_eq_false_iff_not

theorem mem_revoked_revoke (s : InMemoryCapabilityStore) (t u : String) :
    u ∈ (s.revoke t).revoked ↔ u = t ∨ u ∈ s.revoked := by
  simp only [revoke]
  split
  · rename_i ht
    refine ⟨Or.inr, ?_⟩
    rintro (rfl | h)
    · exact ht
    · exact h
  · exact List.mem_cons

end InMemoryCapabilityStore

open InMemoryCapabilityStore in
instance : LawfulCapabilityStore InMemoryCapabilityStore where
  issued?_empty _ := rfl
  issued?_recordIssued_ne s t entry u hne := by
    change Dict.get? (Dict.set s.issued t entry) u = Dict.get? s.issued u
    rw [Dict.get?_set, if_neg hne]
  issued?_recordIssued_self s t entry := by
    left
    change Dict.get? (Dict.set s.issued t entry) t = some entry
    simp
  issued?_tryConsume s t u := by
    change Dict.get? (s.tryConsume t).2.issued u = Dict.get? s.issued u
    unfold InMemoryCapabilityStore.tryConsume
    split <;> rfl
  issued?_revoke _ _ _ := rfl
  issued?_revokeScope _ _ _ _ _ := rfl
  issued?_purgeExpired s now u := Dict.get?_filter s.nodup _ _
  isRevoked_recordIssued _ _ _ _ h := h
  isRevoked_tryConsume s t u := by
    change decide (u ∈ (s.tryConsume t).2.revoked) = decide (u ∈ s.revoked)
    unfold InMemoryCapabilityStore.tryConsume
    split <;> rfl
  isRevoked_revoke s t u h :=
    (isRevoked_iff _ u).mpr ((mem_revoked_revoke s t u).mpr (Or.inr ((isRevoked_iff s u).mp h)))
  isRevoked_revokeScope s a w c u h :=
    (isRevoked_iff _ u).mpr (List.mem_append_right _ ((isRevoked_iff s u).mp h))
  isRevoked_purgeExpired s now u h := by
    by_cases hexp : u ∈ (s.issued.filter fun e => e.2.expiresAt < now).map Prod.fst
    · right
      obtain ⟨⟨k, e⟩, hmem, rfl⟩ := List.mem_map.mp hexp
      rw [List.mem_filter] at hmem
      exact ⟨e, (Dict.get?_eq_some_iff s.nodup).mpr hmem.1, of_decide_eq_true hmem.2⟩
    · left
      exact (isRevoked_iff _ u).mpr
        (List.mem_filter.mpr ⟨(isRevoked_iff s u).mp h, decide_eq_true hexp⟩)
  isRevoked_revoke_self s t _ :=
    (isRevoked_iff _ t).mpr ((mem_revoked_revoke s t t).mpr (Or.inl rfl))
  isRevoked_revokeScope_self s t e h hc := by
    rw [isConsumed_eq_false_iff] at hc
    refine (isRevoked_iff _ t).mpr ?_
    by_cases hr : t ∈ s.revoked
    · exact List.mem_append_right _ hr
    · refine List.mem_append_left _ (List.mem_map.mpr ⟨(t, e), ?_, rfl⟩)
      exact List.mem_filter.mpr ⟨Dict.mem_of_get? h, by simp [e.inScope_self, hc, hr]⟩
  tryConsume_of_isRevoked s t h := by
    change (s.tryConsume t).1 = false
    rw [InMemoryCapabilityStore.tryConsume, if_pos (Or.inr ((isRevoked_iff s t).mp h))]

namespace SqlCapabilityStore

theorem isConsumed_eq (s : SqlCapabilityStore) (t : String) :
    CapabilityStateStore.isConsumed t s = ((s.row? t).map TokenRow.consumed).getD false := by
  simp only [CapabilityStateStore.isConsumed, isConsumed, row?]
  cases Dict.get? s.rows t <;> rfl

private theorem issued?_eq (s : SqlCapabilityStore) (t : String) :
    CapabilityStateStore.issued? s t = (s.row? t).map TokenRow.entry := rfl

theorem isRevoked_iff (s : SqlCapabilityStore) (t : String) :
    CapabilityStateStore.isRevoked t s = true ↔ ∃ r, s.row? t = some r ∧ r.revoked = true := by
  simp only [CapabilityStateStore.isRevoked, isRevoked, row?]
  cases Dict.get? s.rows t <;> simp

/-- An `UPDATE` of the marks leaves what is on record. -/
private theorem issued?_update {f : String → TokenRow → TokenRow}
    (hf : ∀ key r, (f key r).entry = r.entry) (s : SqlCapabilityStore) (u : String) :
    CapabilityStateStore.issued? (s.update f) u = CapabilityStateStore.issued? s u := by
  rw [issued?_eq, issued?_eq, row?_update, Option.map_map]
  congr 1
  funext r
  exact hf u r

/-- An `UPDATE` that clears no revocation mark keeps them all. -/
private theorem isRevoked_update {f : String → TokenRow → TokenRow}
    (hf : ∀ key r, r.revoked = true → (f key r).revoked = true) (s : SqlCapabilityStore)
    (u : String) (h : CapabilityStateStore.isRevoked u s = true) :
    CapabilityStateStore.isRevoked u (s.update f) = true := by
  obtain ⟨r, hr, hrev⟩ := (isRevoked_iff s u).mp h
  exact (isRevoked_iff _ u).mpr ⟨f u r, by rw [row?_update, hr]; rfl, hf u r hrev⟩

end SqlCapabilityStore

open SqlCapabilityStore in
instance : LawfulCapabilityStore SqlCapabilityStore where
  issued?_empty _ := rfl
  issued?_recordIssued_ne s t entry u hne := by
    change ((s.recordIssued t entry).row? u).map TokenRow.entry = (s.row? u).map TokenRow.entry
    rw [row?_recordIssued, if_neg hne]
  issued?_recordIssued_self s t entry := by
    change ((s.recordIssued t entry).row? t).map TokenRow.entry = _ ∨
      ((s.row? t).map TokenRow.entry).isSome = true ∧ ((s.recordIssued t entry).row? t).map
        TokenRow.entry = (s.row? t).map TokenRow.entry
    rw [row?_recordIssued, if_pos rfl]
    cases s.row? t with
    | none => exact Or.inl rfl
    | some r => exact Or.inr ⟨rfl, rfl⟩
  issued?_tryConsume s t u := issued?_update (fun _ _ => by dsimp only; split <;> rfl) s u
  issued?_revoke s t u := issued?_update (fun _ _ => by split <;> rfl) s u
  issued?_revokeScope s a w c u := issued?_update (fun _ _ => by dsimp only; split <;> rfl) s u
  issued?_purgeExpired s now u := by
    change (((s.purgeExpired now).2).row? u).map TokenRow.entry =
      ((s.row? u).map TokenRow.entry).filter _
    rw [row?_purgeExpired]
    cases s.row? u with
    | none => rfl
    | some r => by_cases h : r.entry.expiresAt < now <;> simp [Option.filter, h]
  isRevoked_recordIssued s t entry u h := by
    obtain ⟨r, hr, hrev⟩ := (SqlCapabilityStore.isRevoked_iff s u).mp h
    refine (SqlCapabilityStore.isRevoked_iff _ u).mpr ⟨r, ?_, hrev⟩
    change (s.recordIssued t entry).row? u = some r
    rw [row?_recordIssued]
    split
    · rename_i htu
      rw [htu, hr]
      rfl
    · exact hr
  isRevoked_tryConsume s t u := by
    have hsame : ((s.tryConsume t).2.row? u).map TokenRow.revoked =
        (s.row? u).map TokenRow.revoked := by
      rw [row?_tryConsume, Option.map_map]
      congr 1
      funext r
      simp only [Function.comp]
      split <;> rfl
    have hiff := iff_of_eq (congrArg (· = some true) hsame)
    simp only [Option.map_eq_some_iff] at hiff
    rw [Bool.eq_iff_iff, SqlCapabilityStore.isRevoked_iff, SqlCapabilityStore.isRevoked_iff]
    exact hiff
  isRevoked_revoke s t u h :=
    isRevoked_update (fun _ r hrev => by split <;> first | rfl | exact hrev) s u h
  isRevoked_revokeScope s a w c u h :=
    isRevoked_update (fun _ r hrev => by dsimp only; split <;> first | rfl | exact hrev) s u h
  isRevoked_purgeExpired s now u h := by
    obtain ⟨r, hr, hrev⟩ := (SqlCapabilityStore.isRevoked_iff s u).mp h
    by_cases hexp : r.entry.expiresAt < now
    · exact Or.inr ⟨r.entry, by rw [issued?_eq, hr]; rfl, hexp⟩
    · left
      refine (SqlCapabilityStore.isRevoked_iff _ u).mpr ⟨r, ?_, hrev⟩
      change ((s.purgeExpired now).2).row? u = _
      rw [row?_purgeExpired, hr]
      simp [Option.filter, hexp]
  isRevoked_revoke_self s t h := by
    rw [issued?_eq] at h
    obtain ⟨e, he⟩ := Option.isSome_iff_exists.mp h
    obtain ⟨r, hr, _⟩ := Option.map_eq_some_iff.mp he
    refine (SqlCapabilityStore.isRevoked_iff _ t).mpr ⟨{ r with revoked := true }, ?_, rfl⟩
    change (s.revoke t).row? t = _
    rw [row?_revoke, hr]
    simp
  isRevoked_revokeScope_self s t e h hc := by
    obtain ⟨r, hr, rfl⟩ := Option.map_eq_some_iff.mp h
    change s.row? t = some r at hr
    have hconsumed : r.consumed = false := by simpa [isConsumed_eq, hr] using hc
    refine (SqlCapabilityStore.isRevoked_iff _ t).mpr ⟨{ r with revoked := true }, ?_, rfl⟩
    change ((s.revokeScope _ _ _).2).row? t = _
    rw [row?_revokeScope]
    cases hrev : r.revoked
    · simp [hr, IssuedEntry.inScope_self, hconsumed, hrev]
    · obtain ⟨entry, consumed, revoked⟩ := r
      simp only at hrev
      simp [hr, hrev]
  tryConsume_of_isRevoked s t h := by
    obtain ⟨r, hr, hrev⟩ := (SqlCapabilityStore.isRevoked_iff s t).mp h
    rw [Bool.eq_false_iff]
    intro hcons
    obtain ⟨r', hr', _, hrev'⟩ := (s.tryConsume_eq_true_iff t).mp hcons
    rw [hr] at hr'
    cases hr'
    rw [hrev] at hrev'
    cases hrev'

end EarnedAutonomy
