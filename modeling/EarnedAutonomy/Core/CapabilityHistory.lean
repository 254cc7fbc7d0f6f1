import EarnedAutonomy.Core.Capability

/-!
# Histories of capability calls

What holds of any sequence of capability calls, whoever makes them.  A
`CapHistory` is a log of calls in which every answer is the one the store, the
clock and the random draws gave.  In between others may read the clock and draw
ids, but not touch the store.  The runs of a capability service and the runs of
a whole control plane both contain such a log, so the facts below serve both.

* Readings of the clock and random draws: where their answers come from, and
  that two threads never draw one id.
* Records: who put a token on record, and that an id is recorded once when
  every thread draws the id it records (`recorded_le_one`).
* Consumption in the database: an id is consumed at most as often as it is
  recorded (`consumed_le_recorded`), because a consumed row is never made
  unconsumed and a deleted row can only come back by being recorded.
-/

namespace EarnedAutonomy

open Atomic Calendar CapabilityStateStore

/-- A log of capability calls. -/
abbrev CapLog := List (Entry CapRes)

section

variable {C : Type} [CapabilityStateStore C]

/-- The log leads from one state to another, with the answers it holds. -/
inductive CapHistory (o : Oracle) (w₀ : CapWorld C) : CapLog → CapWorld C → Prop where
  | nil : CapHistory o w₀ [] w₀
  | snoc {log : CapLog} {w : CapWorld C} (h : CapHistory o w₀ log w) (i : Nat) (op : CapCall) :
      CapHistory o w₀ (log ++ [⟨i, op, (capHandler o op w).1⟩]) (capHandler o op w).2
  | pass {log : CapLog} {w : CapWorld C} (h : CapHistory o w₀ log w) {reads draws : Nat}
      (hreads : w.reads ≤ reads) (hdraws : w.draws ≤ draws) :
      CapHistory o w₀ log ⟨w.store, reads, draws⟩

/-! ## Clock and draws -/

/-- A call that reads the clock moves it on, any other leaves it. -/
theorem reads_le_capHandler (o : Oracle) (op : CapCall) (w : CapWorld C) :
    w.reads ≤ (capHandler o op w).2.reads := by
  cases op <;> simp [capHandler]

variable {o : Oracle} {w₀ w : CapWorld C} {log : CapLog}

/-- An answer of the clock is one of its readings so far. -/
theorem CapHistory.exists_reading (h : CapHistory o w₀ log w) {i : Nat} {d : DateTime}
    (hd : ⟨i, .utcNow, d⟩ ∈ log) : ∃ k < w.reads, d = o.time k := by
  induction h with
  | nil => simp at hd
  | @snoc log w h j op ih =>
    rcases List.mem_append.mp hd with hd | hd
    · obtain ⟨k, hk, rfl⟩ := ih hd
      exact ⟨k, Nat.lt_of_lt_of_le hk (reads_le_capHandler o op w), rfl⟩
    · cases op <;> simp only [List.mem_singleton, Entry.mk.injEq, reduceCtorEq, false_and,
        and_false] at hd
      obtain ⟨_, _, hd⟩ := hd
      exact ⟨w.reads, Nat.lt_succ_self _, eq_of_heq hd⟩
  | pass h hreads hdraws ih =>
    obtain ⟨k, hk, rfl⟩ := ih hd
    exact ⟨k, Nat.lt_of_lt_of_le hk hreads, rfl⟩

/-- The draws of a log, with who made them. -/
def drawsOf (log : CapLog) : List (Nat × Uuid) :=
  log.filterMap fun
    | ⟨i, .uuid4, u⟩ => some (i, u)
    | _ => none

theorem mem_drawsOf {i : Nat} {u : Uuid} : (i, u) ∈ drawsOf log ↔ ⟨i, .uuid4, u⟩ ∈ log := by
  simp only [drawsOf, List.mem_filterMap]
  constructor
  · rintro ⟨⟨j, op, a⟩, hmem, heq⟩
    cases op <;> simp only [Option.some.injEq, Prod.mk.injEq, reduceCtorEq] at heq
    obtain ⟨rfl, rfl⟩ := heq
    exact hmem
  · intro hmem
    exact ⟨_, hmem, rfl⟩

/-- The draws of a history are draws of the generator, in order. -/
theorem CapHistory.drawsOf_eq (h : CapHistory o w₀ log w) :
    ∃ ks : List Nat, (drawsOf log).map Prod.snd = ks.map o.uuid ∧ ks.Pairwise (· < ·) ∧
      ∀ k ∈ ks, k < w.draws := by
  induction h with
  | nil => exact ⟨[], rfl, List.Pairwise.nil, fun _ hk => nomatch hk⟩
  | @snoc log w h j op ih =>
    obtain ⟨ks, hdraws, hsorted, hbound⟩ := ih
    cases op with
    | uuid4 =>
      refine ⟨ks ++ [w.draws], ?_, ?_, fun k hk => ?_⟩
      · have hlast : drawsOf (log ++ [⟨j, .uuid4, (capHandler o .uuid4 w).1⟩]) =
            drawsOf log ++ [(j, o.uuid w.draws)] := by
          simp [drawsOf, capHandler]
        rw [hlast, List.map_append, List.map_append, hdraws]
        rfl
      · refine List.pairwise_append.mpr ⟨hsorted, List.pairwise_singleton _ _, ?_⟩
        intro k hk l hl
        rw [List.mem_singleton.mp hl]
        exact hbound k hk
      · change k < w.draws + 1
        rcases List.mem_append.mp hk with hk | hk
        · exact Nat.lt_succ_of_lt (hbound k hk)
        · rw [List.mem_singleton.mp hk]
          exact Nat.lt_succ_self _
    | _ => exact ⟨ks, by simpa [drawsOf] using hdraws, hsorted, hbound⟩
  | pass h hreads hmore ih =>
    obtain ⟨ks, hdraws, hsorted, hbound⟩ := ih
    exact ⟨ks, hdraws, hsorted, fun k hk => Nat.lt_of_lt_of_le (hbound k hk) hmore⟩

/-- With fresh draws, the first 16 digits of a draw tell who made it. -/
theorem CapHistory.thread_eq_of_draw (h : CapHistory o w₀ log w) (hfresh : o.Fresh)
    {i j : Nat} {u v : Uuid} (hu : ⟨i, .uuid4, u⟩ ∈ log) (hv : ⟨j, .uuid4, v⟩ ∈ log)
    (huv : u.first16 = v.first16) : i = j := by
  obtain ⟨ks, hdraws, hsorted, _⟩ := h.drawsOf_eq
  -- the number of a draw at each place of the log
  have number {n i : Nat} {u : Uuid} (hn : (drawsOf log)[n]? = some (i, u)) :
      ∃ k, ks[n]? = some k ∧ o.uuid k = u := by
    have hmap : (ks.map o.uuid)[n]? = some u := by
      rw [← hdraws, List.getElem?_map, hn]
      rfl
    rwa [List.getElem?_map, Option.map_eq_some_iff] at hmap
  obtain ⟨m, hm⟩ := List.mem_iff_getElem?.mp (mem_drawsOf.mpr hu)
  obtain ⟨n, hn⟩ := List.mem_iff_getElem?.mp (mem_drawsOf.mpr hv)
  obtain ⟨k, hk, rfl⟩ := number hm
  obtain ⟨l, hl, rfl⟩ := number hn
  obtain rfl := hfresh _ _ huv
  have hmn : m = n := by
    have hnodup : ks.Nodup := hsorted.imp fun hlt => Nat.ne_of_lt hlt
    exact (List.getElem?_inj (List.getElem?_eq_some_iff.mp hk).1 hnodup).mp (hk.trans hl.symm)
  rw [hmn, hn] at hm
  simp only [Option.some.injEq, Prod.mk.injEq] at hm
  exact hm.1.symm

theorem newId_injective {kind : String} {u v : Uuid} (h : newId kind u = newId kind v) :
    u.first16 = v.first16 := by
  have := congrArg String.toList h
  simp only [newId, String.toList_append, List.append_assoc] at this
  exact String.toList_inj.mp (List.append_cancel_left (List.append_cancel_left this))

/-! ## Records -/

/-- The call puts the token on record. -/
def records (tokenId : String) : CapCall → Bool
  | .recordIssued t _ => t = tokenId
  | _ => false

/-- Every record is of an id its thread has drawn, and no thread records twice. -/
structure DrawsItsIds (log : CapLog) : Prop where
  drawn : ∀ i t e, ⟨i, .recordIssued t e, ()⟩ ∈ log →
    ∃ u, ⟨i, .uuid4, u⟩ ∈ log ∧ t = newId "cap" u
  once : ∀ i t, log.countP (fun e => e.thread = i && records t e.op) ≤ 1

/-- An id is recorded at most once. -/
theorem CapHistory.recorded_le_one (h : CapHistory o w₀ log w) (hfresh : o.Fresh)
    (hids : DrawsItsIds log) (t : String) : log.countP (fun e => records t e.op) ≤ 1 := by
  by_cases hnone : ∀ e ∈ log, records t e.op = false
  · rw [List.countP_eq_zero.mpr fun e he => by simp [hnone e he]]
    exact Nat.zero_le 1
  · push Not at hnone
    obtain ⟨⟨i, op, a⟩, he, hrec⟩ := hnone
    -- every record of the id was made by the thread of this one
    have hthread : ∀ e ∈ log, records t e.op = true → (e.thread = i && records t e.op) = true := by
      rintro ⟨j, op', a'⟩ he' hrec'
      have drawn : ∀ (k : Nat) (op : CapCall) (a : CapRes op), ⟨k, op, a⟩ ∈ log →
          records t op = true → ∃ u, ⟨k, .uuid4, u⟩ ∈ log ∧ t = newId "cap" u := by
        intro k op a hk hr
        cases op <;> simp only [records, Bool.false_eq_true, decide_eq_true_eq] at hr
        subst hr
        exact hids.drawn k _ _ hk
      obtain ⟨u, hu, htu⟩ := drawn i op a he (by simpa using hrec)
      obtain ⟨v, hv, htv⟩ := drawn j op' a' he' hrec'
      have hij := h.thread_eq_of_draw hfresh hu hv (newId_injective (htu.symm.trans htv))
      simp only [hij, decide_true, Bool.true_and]
      exact hrec'
    exact (List.countP_mono_left hthread).trans (hids.once i t)

section Lawful

variable [LawfulCapabilityStore C]

open LawfulCapabilityStore

/-- What is on record was recorded in the history or at its start. -/
theorem CapHistory.exists_record (h : CapHistory o w₀ log w)
    (hempty : ∀ t, issued? w₀.store t = none) {t : String} {e : IssuedEntry}
    (ht : issued? w.store t = some e) : ∃ i, ⟨i, .recordIssued t e, ()⟩ ∈ log := by
  induction h generalizing e with
  | nil => simp [hempty] at ht
  | @snoc log w h j op ih =>
    have keep : issued? w.store t = some e →
        ∃ i, ⟨i, .recordIssued t e, ()⟩ ∈ log ++ [⟨j, op, (capHandler o op w).1⟩] := by
      intro hw
      obtain ⟨i, hi⟩ := ih hw
      exact ⟨i, List.mem_append_left _ hi⟩
    cases op with
    | utcNow => exact keep ht
    | uuid4 => exact keep ht
    | isRevoked u => exact keep ht
    | tryConsume u => exact keep (by simpa [capHandler, issued?_tryConsume] using ht)
    | revoke u => exact keep (by simpa [capHandler, issued?_revoke] using ht)
    | revokeScope a wf c => exact keep (by simpa [capHandler, issued?_revokeScope] using ht)
    | purgeExpired now =>
      simp only [capHandler, issued?_purgeExpired, Option.filter_eq_some_iff] at ht
      exact keep ht.1
    | recordIssued u entry =>
      change issued? (recordIssued u entry w.store) t = some e at ht
      by_cases hut : u = t
      · subst hut
        rcases issued?_recordIssued_self w.store u entry with h | ⟨_, h⟩
        · rw [h] at ht
          cases ht
          exact ⟨j, by simp [capHandler]⟩
        · exact keep (h.symm.trans ht)
      · rw [issued?_recordIssued_ne _ _ _ _ hut] at ht
        exact keep ht
  | pass h hreads hdraws ih => exact ih ht

end Lawful

end

/-! ## Consumption in the database -/

/-- A successful consume of the token. -/
def consumes (tokenId : String) : Entry CapRes → Bool
  | ⟨_, .tryConsume t, ok⟩ => t = tokenId && ok
  | _ => false

/-- 1 while the token has a row that is not consumed. -/
def live (tokenId : String) (s : SqlCapabilityStore) : Nat :=
  match s.row? tokenId with
  | some r => if r.consumed then 0 else 1
  | none => 0

/-- A call that changes marks other than `consumed`, or drops rows, does not
bring a token to life. -/
private theorem live_le_of_row? {t : String} {s s' : SqlCapabilityStore}
    (h : ∀ r', s'.row? t = some r' → ∃ r, s.row? t = some r ∧ r'.consumed = r.consumed) :
    live t s' ≤ live t s := by
  unfold live
  cases hs' : s'.row? t with
  | none => exact Nat.zero_le _
  | some r' =>
    obtain ⟨r, hr, hc⟩ := h r' hs'
    simp [hr, hc]

private theorem live_recordIssued_le (s : SqlCapabilityStore) (t u : String)
    (e : IssuedEntry) :
    live t (s.recordIssued u e) ≤ live t s + if u = t then 1 else 0 := by
  by_cases hut : u = t
  · rw [if_pos hut]
    unfold live
    split
    · split <;> omega
    · omega
  · have hrow := s.row?_recordIssued u t e
    rw [if_neg hut] at hrow
    unfold live
    rw [hrow, if_neg hut]
    exact Nat.le_refl _

private theorem live_tryConsume_le (s : SqlCapabilityStore) (t u : String) :
    live t (s.tryConsume u).2 + (if (u = t && (s.tryConsume u).1) = true then 1 else 0) ≤
      live t s := by
  by_cases hok : (u = t && (s.tryConsume u).1) = true
  · simp only [Bool.and_eq_true, decide_eq_true_eq] at hok
    obtain ⟨rfl, hcons⟩ := hok
    obtain ⟨r, hr, hc, hrev⟩ := (s.tryConsume_eq_true_iff u).mp hcons
    have hrow := s.row?_tryConsume u u
    simp [live, hrow, hr, hc, hrev, hcons]
  · rw [if_neg hok, Nat.add_zero]
    refine live_le_of_row? fun r' hr' => ?_
    rw [s.row?_tryConsume, Option.map_eq_some_iff] at hr'
    obtain ⟨r, hr, rfl⟩ := hr'
    refine ⟨r, hr, ?_⟩
    split
    · rename_i hhit
      simp only [Bool.and_eq_true, decide_eq_true_eq, Bool.not_eq_true'] at hhit
      obtain ⟨⟨rfl, hc⟩, hrev⟩ := hhit
      have hcons := (s.tryConsume_eq_true_iff t).mpr ⟨r, hr, hc, hrev⟩
      exact absurd (by simp [hcons]) hok
    · rfl

/-- One call adds no more consumes and life than records. -/
private theorem consumes_add_live_le (o : Oracle) (w : CapWorld SqlCapabilityStore) (t : String)
    (i : Nat) (op : CapCall) :
    (if consumes t ⟨i, op, (capHandler o op w).1⟩ = true then 1 else 0) +
        live t (capHandler o op w).2.store ≤
      live t w.store + if records t op = true then 1 else 0 := by
  cases op with
  | utcNow => simp [consumes, records, capHandler]
  | uuid4 => simp [consumes, records, capHandler]
  | isRevoked u => simp [consumes, records, capHandler]
  | recordIssued u e =>
    have hlive := live_recordIssued_le w.store t u e
    simp only [consumes, records, Bool.false_eq_true, if_false, Nat.zero_add, decide_eq_true_eq]
    exact hlive
  | tryConsume u =>
    have hlive := live_tryConsume_le w.store t u
    rw [Nat.add_comm] at hlive
    exact hlive
  | revoke u =>
    have hlive : live t (w.store.revoke u) ≤ live t w.store := by
      refine live_le_of_row? fun r' hr' => ?_
      rw [w.store.row?_revoke, Option.map_eq_some_iff] at hr'
      obtain ⟨r, hr, rfl⟩ := hr'
      exact ⟨r, hr, by split <;> rfl⟩
    simp only [consumes, records, Bool.false_eq_true, if_false, Nat.zero_add]
    exact hlive
  | revokeScope a wf c =>
    have hlive : live t (w.store.revokeScope a wf c).2 ≤ live t w.store := by
      refine live_le_of_row? fun r' hr' => ?_
      rw [w.store.row?_revokeScope, Option.map_eq_some_iff] at hr'
      obtain ⟨r, hr, rfl⟩ := hr'
      exact ⟨r, hr, by split <;> rfl⟩
    simp only [consumes, records, Bool.false_eq_true, if_false, Nat.zero_add]
    exact hlive
  | purgeExpired now =>
    have hlive : live t (w.store.purgeExpired now).2 ≤ live t w.store := by
      refine live_le_of_row? fun r' hr' => ?_
      rw [w.store.row?_purgeExpired, Option.filter_eq_some_iff] at hr'
      exact ⟨r', hr'.1, rfl⟩
    simp only [consumes, records, Bool.false_eq_true, if_false, Nat.zero_add]
    exact hlive

/-- A token is consumed at most as often as it is recorded. -/
theorem CapHistory.consumed_le_recorded {o : Oracle} {w₀ w : CapWorld SqlCapabilityStore}
    {log : CapLog} (h : CapHistory o w₀ log w) (t : String) (hempty : w₀.store.row? t = none) :
    log.countP (consumes t) + live t w.store ≤ log.countP (fun e => records t e.op) := by
  induction h with
  | nil => simp [live, hempty]
  | @snoc log w h j op ih =>
    have hstep := consumes_add_live_le o w t j op
    simp only [List.countP_append, List.countP_singleton]
    omega
  | pass h hreads hdraws ih => exact ih

end EarnedAutonomy
