import EarnedAutonomy.Core.CapabilityRuns

/-!
# What a purge may drop

`purge_expired` compares the expiry of a token as a text, `verify_for_action` as a time.
A token that a purge drops has no mark any more, so nothing but its expiry keeps it from
being accepted.

* `isoformat_lt_iff` says that the two comparisons agree.
* `follows_verifyForAction_expired`: a verification that reads the clock after the expiry
  refuses, whatever its other calls answer.
* `purge_follows_expiry`: what a purge drops is refused as expired from then on.  Where draws
  do not repeat, the record that is dropped is the token's own (`Minted.own_record`).
-/

namespace EarnedAutonomy

open Atomic Prog Calendar OrderedDict CapabilityStateStore CapabilityService

/-! ## Expired tokens -/

section

variable {P : Primitives} {svc : CapabilityService P} {t : CapabilityToken} {x : DateTime}

/-- The token is what some call of `mint` returned. -/
def CapabilityService.Mints (svc : CapabilityService P) (t : CapabilityToken) : Prop :=
  ∃ args calls, Follows (svc.mint args) calls (.done t)

/-- A minted token is signed, and its expiry is the text of a time. -/
theorem CapabilityService.Mints.signed (h : svc.Mints t) :
    svc.signatureValid t = .ok true ∧ ∃ x, t.expiresAt = isoformat x := by
  obtain ⟨args, calls, hmint⟩ := h
  obtain ⟨now, expires, id, nonce, payload, _, hpayload, rfl, _⟩ := follows_mint_done hmint
  refine ⟨?_, expires, rfl⟩
  unfold signatureValid
  -- the signature is not among the signed fields
  rw [show ({ svc.unsignedToken args now expires id nonce with
    signature := some (svc.keys.sign payload) } : CapabilityToken).signingPayload = .ok payload
    from hpayload]
  simp [Bind.bind, Except.bind, pure, Except.pure]

/-- A verification that reads the clock at or after the expiry refuses: as revoked if it found a
mark, and as expired otherwise. -/
theorem follows_verifyForAction_expired (hsigned : svc.signatureValid t = .ok true)
    (hx : t.expiresAt = isoformat x) {action : Action} {calls : List ((op : CapCall) × CapRes op)}
    {result : Except PyError VerificationResult}
    (h : Follows (svc.verifyForAction t action) calls (ofExcept result))
    (hlate : ∀ d, ⟨.utcNow, d⟩ ∈ calls → x ≤ d) :
    ∃ revoked rest, calls = ⟨.isRevoked t.tokenId, revoked⟩ :: rest ∧
      result = .ok (refuse t (if revoked then "token revoked" else "token expired")) := by
  unfold verifyForAction at h
  simp only [hsigned, ofExcept_ok, done_bind, if_true, perform_bind, hx,
    fromisoformat_isoformat, follows_call_result_iff] at h
  obtain ⟨revoked, rest, rfl, hrest⟩ := h
  refine ⟨revoked, rest, rfl, ?_⟩
  cases revoked with
  | true =>
    rw [if_pos rfl, pure_eq_done, follows_done_result_iff] at hrest
    exact hrest.2
  | false =>
    rw [if_neg Bool.false_ne_true, follows_call_result_iff] at hrest
    obtain ⟨now, last, rfl, hlast⟩ := hrest
    have hnow : hasExpired now ⟨x, some 0⟩ = .ok true := by
      have hle : x ≤ now := hlate now (by simp)
      simp [hasExpired, hle]
    rw [hnow, ofExcept_ok, done_bind, if_pos rfl, pure_eq_done, follows_done_result_iff] at hlast
    exact hlast.2

end

/-! ## Purging -/

/-- A backend drops the marks of a token together with its record. -/
class DropsMarks (C : Type) [CapabilityStateStore C] : Prop extends
    LawfulCapabilityStore C where
  isRevoked_of_purged : ∀ (s : C) now t, (issued? s t).isSome →
    issued? (CapabilityStateStore.purgeExpired now s).2 t = none →
      isRevoked t (CapabilityStateStore.purgeExpired now s).2 = false

instance : DropsMarks InMemoryCapabilityStore where
  isRevoked_of_purged s now t h hgone := by
    rw [LawfulCapabilityStore.issued?_purgeExpired, Option.filter_eq_none_iff] at hgone
    obtain ⟨e, he⟩ := Option.isSome_iff_exists.mp h
    have hexpired : e.expiresAt < now := by simpa using hgone e he
    have hmem : t ∈ (s.issued.filter fun e => e.2.expiresAt < now).map Prod.fst :=
      List.mem_map.mpr ⟨(t, e),
        List.mem_filter.mpr ⟨Dict.mem_of_get? he, decide_eq_true hexpired⟩, rfl⟩
    change decide (t ∈ (s.purgeExpired now).2.revoked) = false
    simp only [InMemoryCapabilityStore.purgeExpired, List.mem_filter, decide_eq_false_iff_not]
    exact fun hkept => absurd hmem (of_decide_eq_true hkept.2)

instance : DropsMarks SqlCapabilityStore where
  isRevoked_of_purged s now t _ hgone := by
    have hrow : (s.purgeExpired now).2.row? t = none := Option.map_eq_none_iff.mp hgone
    rw [← Bool.not_eq_true, SqlCapabilityStore.isRevoked_iff]
    rintro ⟨r, hr, _⟩
    rw [show (CapabilityStateStore.purgeExpired now s).2 = (s.purgeExpired now).2 from rfl,
      hrow] at hr
    cases hr

section

variable {P : Primitives} {C : Type} [CapabilityStateStore C]

/-- A call of `purge_expired` is made at a time: its argument says so, or the clock does where
there is none or an empty one. -/
def PurgeAt (o : Oracle) (τ : DateTime) (nowIso : Option String) (w : CapWorld C) : Prop :=
  nowIso = some (isoformat τ) ∨ (nowIso = none ∨ nowIso = some "") ∧ o.time w.reads = τ

theorem isoformat_ne_empty (d : DateTime) : isoformat d ≠ "" := by
  intro h
  have hread := fromisoformat_isoformat d
  have hunread : fromisoformat "" = none := by decide
  rw [h, hunread] at hread
  cases hread

/-- Such a call drops what is expired at that time. -/
theorem PurgeAt.store {o : Oracle} {τ : DateTime} {nowIso : Option String} {w : CapWorld C}
    (h : PurgeAt o τ nowIso w) :
    ((CapabilityService.purgeExpired nowIso).run (capHandler o) w).2.store =
      (CapabilityStateStore.purgeExpired (isoformat τ) w.store).2 := by
  unfold CapabilityService.purgeExpired purgeTime
  rcases h with rfl | ⟨rfl | rfl, rfl⟩
  · dsimp only
    rw [if_neg (isoformat_ne_empty τ)]
    rfl
  · rfl
  · rfl

/-- In a run whose draws do not repeat, what is on record for a minted token is its own entry. -/
theorem Minted.own_record [LawfulCapabilityStore C] {services : Nat → CapabilityService P}
    {o : Oracle} {G : CapPool C → Move (Nat × Request) → Prop} {q : CapPool C}
    {t : CapabilityToken} {e : IssuedEntry} (hfresh : o.Fresh)
    (hq : (deployment services o).Leads G (Service.fresh (emptyWorld C)) q) (ht : Minted q t)
    (he : issued? q.state.store t.tokenId = some e) : e = entryOf t := by
  obtain ⟨i, hi⟩ := (deployment_history hq).exists_record
    (fun _ => LawfulCapabilityStore.issued?_empty _) he
  obtain ⟨k, hk⟩ := ht.record hq
  exact entry_eq_of_record hq hfresh hi hk

/-- From a time on the token is refused as expired, where this is the state at that time. -/
structure ExpiredSince (svc : CapabilityService P) (t : CapabilityToken) (τ : DateTime)
    (s : C) : Prop where
  /-- A call in this state. -/
  here : ∀ (o : Oracle) reads draws action, τ ≤ o.time reads →
    ((svc.verifyForAction t action).run (capHandler o) ⟨s, reads, draws⟩).1 =
      .ok (refuse t "token expired")
  /-- Any later call, whatever others do between its steps.  Only a new revocation mark, which
  is looked for first, is named instead. -/
  later : ∀ action calls result,
    Follows (svc.verifyForAction t action) calls (ofExcept result) →
    (∀ d, ⟨.utcNow, d⟩ ∈ calls → τ ≤ d) →
      result = .ok (refuse t "token expired") ∨
        ⟨.isRevoked t.tokenId, true⟩ ∈ calls ∧ result = .ok (refuse t "token revoked")

variable (C) in
/-- A minted token whose record a purge drops is refused as expired from then on. -/
def PurgesExpired (svc : CapabilityService P) : Prop :=
  ∀ (o : Oracle) (τ : DateTime) (nowIso : Option String) (w : CapWorld C) (t : CapabilityToken),
    svc.Mints t → PurgeAt o τ nowIso w → issued? w.store t.tokenId = some (entryOf t) →
    issued? ((CapabilityService.purgeExpired nowIso).run (capHandler o) w).2.store t.tokenId =
      none →
    ExpiredSince svc t τ ((CapabilityService.purgeExpired nowIso).run (capHandler o) w).2.store

theorem purgesExpired [DropsMarks C] (svc : CapabilityService P) : PurgesExpired C svc := by
  intro o τ nowIso w t hminted hpurge hissued hgone
  obtain ⟨hsigned, x, hx⟩ := hminted.signed
  rw [hpurge.store] at hgone ⊢
  have hunmarked := DropsMarks.isRevoked_of_purged _ _ _ (by rw [hissued]; rfl) hgone
  -- the purge found the text of the expiry below that of its time
  have hexpired : x ≤ τ := by
    rw [LawfulCapabilityStore.issued?_purgeExpired, hissued] at hgone
    have hlt : isoformat x < isoformat τ := by
      simpa [Option.filter_some, entryOf, hx] using hgone
    exact ((isoformat_lt_iff x τ).mp hlt).le
  constructor
  · intro o' reads draws action hlate
    have hnow : x ≤ o'.time reads := hexpired.trans hlate
    unfold verifyForAction
    simp [hsigned, hx, fromisoformat_isoformat, capHandler, hunmarked, hasExpired, hnow]
  · intro action calls result hpath hlate
    obtain ⟨revoked, rest, rfl, hresult⟩ := follows_verifyForAction_expired hsigned hx hpath
      fun d hd => hexpired.trans (hlate d hd)
    cases revoked with
    | true => exact Or.inr ⟨List.mem_cons_self, hresult⟩
    | false => exact Or.inl hresult

/-- The texts of two times compare as the times do, so a purge drops only tokens that are
refused as expired at its time and at every later one. -/
theorem purge_follows_expiry (svc : CapabilityService P) :
    (∀ a b : DateTime, (isoformat a < isoformat b ↔ a < b) ∧ (isoformat a = isoformat b ↔ a = b)) ∧
      PurgesExpired InMemoryCapabilityStore svc ∧ PurgesExpired SqlCapabilityStore svc := by
  refine ⟨fun a b => ⟨isoformat_lt_iff a b, fun h => ?_, fun h => congrArg isoformat h⟩,
    purgesExpired svc, purgesExpired svc⟩
  have hread := fromisoformat_isoformat a
  rw [h, fromisoformat_isoformat b] at hread
  cases hread
  rfl

end

/-- The first token on an empty database, while the clock moves on by an hour. -/
theorem mints_demoToken :
    (((demoService 0).mint demoArgs).run (capHandler (C := SqlCapabilityStore)
      (demoOracle demoClock)) (emptyWorld _)).1 = .ok demoToken := by
  with_unfolding_all rfl

/-- The purge an hour later drops the token, and the token has expired from then on. -/
theorem purge_follows_expiry_demo :
    let handler := capHandler (C := SqlCapabilityStore) (demoOracle demoClock)
    let minted := (((demoService 0).mint demoArgs).run handler (emptyWorld _)).2
    let purged := ((CapabilityService.purgeExpired none).run handler minted).2
    issued? purged.store demoToken.tokenId = none ∧
      ExpiredSince (demoService 0) demoToken (demoHour 13) purged.store ∧
      (((demoService 0).verifyForAction demoToken demoAction).run handler purged).1 =
        .ok (refuse demoToken "token expired") := by
  intro handler minted purged
  have hpath := follows_trace handler ((demoService 0).mint demoArgs) (emptyWorld _)
  rw [mints_demoToken, ofExcept_ok] at hpath
  have hpurge : PurgeAt (demoOracle demoClock) (demoHour 13) none minted := by
    have hreads : minted.reads = 1 := by decide
    exact Or.inr ⟨Or.inl rfl, by rw [hreads]; decide⟩
  have hgone : issued? purged.store demoToken.tokenId = none := by decide
  have hexpired : ExpiredSince (demoService 0) demoToken (demoHour 13) purged.store :=
    (purge_follows_expiry (demoService 0)).2.2 (demoOracle demoClock) (demoHour 13) none minted
      demoToken ⟨demoArgs, _, hpath⟩ hpurge (by decide) hgone
  exact ⟨hgone, hexpired, hexpired.here _ purged.reads purged.draws demoAction (by decide)⟩

end EarnedAutonomy
