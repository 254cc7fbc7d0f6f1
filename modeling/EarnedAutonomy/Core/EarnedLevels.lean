import EarnedAutonomy.Core.Evidence

/-!
# Levels that are earned

What one more outcome does to the level that is recommended, over exact reals.

* `relaxation_is_backed_iff`: what stands behind a relaxation.  The sample size of a rung is
  compared with all decisions, so it can be short of clean ones.
* `bad_outcome_iff`: when a bad outcome raises the level.  It can complete the sample size, and
  it dilutes the rates of the other bad outcomes.
* `clean_work_counts_upward`: a clean approval never costs a level, and a bad outcome in its
  place never gains one.
-/

namespace EarnedAutonomy

open Arithmetic

/-! ## One more outcome -/

/-- One more of a counter. -/
def TrustStats.plus (s : TrustStats) : TrustCounter → TrustStats
  | .cleanApprovals => { s with cleanApprovals := s.cleanApprovals + 1 }
  | .modifiedApprovals => { s with modifiedApprovals := s.modifiedApprovals + 1 }
  | .rejections => { s with rejections := s.rejections + 1 }
  | .escalations => { s with escalations := s.escalations + 1 }
  | .evidenceRequests => { s with evidenceRequests := s.evidenceRequests + 1 }
  | .incidents => { s with incidents := s.incidents + 1 }

section

variable (s : TrustStats) (k : TrustCounter)

@[simp] theorem authorityClass_plus : (s.plus k).authorityClass = s.authorityClass := by
  cases k <;> rfl

@[simp] theorem totalDecisions_plus :
    (s.plus k).totalDecisions = s.totalDecisions + if k = .incidents then 0 else 1 := by
  cases k <;> simp only [TrustStats.plus, TrustStats.totalDecisions, reduceCtorEq, if_true,
    if_false] <;> omega

theorem counter_plus (k' : TrustCounter) :
    (s.plus k).counter k' = s.counter k' + if k = k' then 1 else 0 := by
  cases k <;> cases k' <;> rfl

@[simp] theorem cleanApprovals_plus :
    (s.plus k).cleanApprovals = s.cleanApprovals + if k = .cleanApprovals then 1 else 0 :=
  counter_plus s k .cleanApprovals

@[simp] theorem modifiedApprovals_plus :
    (s.plus k).modifiedApprovals =
      s.modifiedApprovals + if k = .modifiedApprovals then 1 else 0 :=
  counter_plus s k .modifiedApprovals

@[simp] theorem rejections_plus :
    (s.plus k).rejections = s.rejections + if k = .rejections then 1 else 0 :=
  counter_plus s k .rejections

@[simp] theorem incidents_plus :
    (s.plus k).incidents = s.incidents + if k = .incidents then 1 else 0 :=
  counter_plus s k .incidents

end

/-! ## Two histories of one class -/

section

variable {F : Type} [Arithmetic F] {s s' : TrustStats}

/-- A history that is pinned whenever another one is, and supports no other rungs, leads to no
higher level. -/
theorem recommendedLevel_le (current : AutonomyLevel)
    (hclass : s'.authorityClass = s.authorityClass)
    (hpinned : s.pinned F = true → s'.pinned F = true)
    (hsupports : s'.pinned F = false → ∀ r ∈ ladder, s'.supports F r = true →
      s.supports F r = true) :
    (recommend (F := F) current s').recommendedLevel.value ≤
      (recommend (F := F) current s).recommendedLevel.value := by
  rw [value_recommendedLevel, value_recommendedLevel, hclass]
  cases hpin' : s'.pinned F with
  | true =>
    simp only [if_true]
    split <;> omega
  | false =>
    have hpin : s.pinned F = false := by
      cases hp : s.pinned F with
      | false => rfl
      | true => rw [hpinned hp] at hpin'; cases hpin'
    rw [hpin]
    have hlevel : s'.supportedLevel F ≤ s.supportedLevel F := by
      by_contra hlt
      rw [not_le, lt_supportedLevel_iff] at hlt
      obtain ⟨r, hr, hsupported, hlt⟩ := hlt
      exact Nat.lt_irrefl _
        ((lt_supportedLevel_iff s _).mpr ⟨r, hr, hsupports hpin' r hr hsupported, hlt⟩)
    simp only [Bool.false_eq_true, if_false]
    omega

end

/-- A lower rung is supported by what supports a higher one. -/
theorem supports_of_le {s : TrustStats} {r r' : Rung} (hr : r ∈ ladder) (hr' : r' ∈ ladder)
    (h : r.level.value ≤ r'.level.value) (hsupports : s.supports ℝ r' = true) :
    s.supports ℝ r = true := by
  obtain ⟨hminimum, hbound, hedit⟩ := ladder_descends hr hr' h s.authorityClass
  rw [supports_real_iff] at hsupports ⊢
  obtain ⟨hceiling, hminimum', hbound', hedit'⟩ := hsupports
  have hboundcast : (r.lowerBound : ℝ) ≤ r'.lowerBound := Nat.cast_le.mpr hbound
  have heditcast : (r'.maxEditRate : ℝ) ≤ r.maxEditRate := Nat.cast_le.mpr hedit
  exact ⟨h.trans hceiling, hminimum.trans hminimum', by linarith, by linarith⟩

/-! ## What backs a relaxation -/

/-- The evidence that is documented for a relaxation to a rung, with its sample size counted
in clean decisions. -/
structure Backed (s : TrustStats) (r : Rung) : Prop where
  noIncident : s.incidents = 0
  ceiling : r.level.value ≤ (autonomyCeilingFor s.authorityClass).value
  samples : r.minimum s.authorityClass ≤ s.cleanApprovals
  lowerBound : (r.lowerBound : ℝ) / 100 ≤ s.cleanApprovalLowerBound
  edits : (s.editRate : ℝ) ≤ r.maxEditRate / 100
  rejections : (samplesByRisk (baseRiskFor s.authorityClass)).sampling ≤ s.totalDecisions →
    (s.rejectionRate : ℝ) < 25 / 100

/-- A history that is not pinned has no incidents and few rejections. -/
theorem of_not_pinned {s : TrustStats} (h : s.pinned ℝ = false) :
    s.incidents = 0 ∧
      ((samplesByRisk (baseRiskFor s.authorityClass)).sampling ≤ s.totalDecisions →
        (s.rejectionRate : ℝ) < 25 / 100) := by
  have hhundred : (10 : ℝ) ^ 2 = 100 := by norm_num
  rw [TrustStats.pinned, Bool.or_eq_false_iff, ← Bool.not_eq_true, Nat.ble_eq,
    ← Bool.not_eq_true, Bool.and_eq_true, Nat.ble_eq, le_real, decimal_real, hhundred] at h
  obtain ⟨hincidents, hrejections⟩ := h
  refine ⟨by omega, fun hsampling => ?_⟩
  by_contra hhigh
  exact hrejections ⟨hsampling, not_lt.mp hhigh⟩

/-- A level above the standing one is that of a rung, and the history supports the rung. -/
theorem supports_of_relaxation {current : AutonomyLevel} {s : TrustStats}
    (h : current.value < (recommend (F := ℝ) current s).recommendedLevel.value) :
    s.pinned ℝ = false ∧ ∃ r ∈ ladder,
      r.level = (recommend (F := ℝ) current s).recommendedLevel ∧ s.supports ℝ r = true := by
  have hvalue := value_recommendedLevel (F := ℝ) current s
  cases hpin : s.pinned ℝ with
  | true =>
    rw [hpin] at hvalue
    simp only [if_true] at hvalue
    omega
  | false =>
    refine ⟨rfl, ?_⟩
    rw [hpin] at hvalue
    simp only [Bool.false_eq_true, if_false] at hvalue
    -- the rung with the highest supported level is within the ceiling
    cases hfind : ladder.find? (s.supports ℝ) with
    | none =>
      rw [TrustStats.supportedLevel, hfind, Option.map_none, Option.getD_none] at hvalue
      omega
    | some r =>
      rw [TrustStats.supportedLevel, hfind, Option.map_some, Option.getD_some] at hvalue
      have hsupports : s.supports ℝ r = true := List.find?_some hfind
      obtain ⟨hceiling, _⟩ := (supports_real_iff s r).mp hsupports
      refine ⟨r, List.mem_of_find?_eq_some hfind, AutonomyLevel.value_injective ?_, hsupports⟩
      omega

/-- A rung above the standing level that is supported is not above the recommended one. -/
theorem le_recommendedLevel (current : AutonomyLevel) {s : TrustStats} {r : Rung}
    (hr : r ∈ ladder) (hpin : s.pinned ℝ = false) (hsupports : s.supports ℝ r = true) :
    r.level.value ≤ (recommend (F := ℝ) current s).recommendedLevel.value := by
  obtain ⟨hceiling, _⟩ := (supports_real_iff s r).mp hsupports
  have hreached : r.level.value ≤ s.supportedLevel ℝ := by
    by_contra hlt
    exact hlt (not_lt.mp fun h => Nat.lt_irrefl _ ((lt_supportedLevel_iff s _).mpr
      ⟨r, hr, hsupports, h⟩))
  rw [value_recommendedLevel, hpin]
  simp only [Bool.false_eq_true, if_false]
  omega

/-- A relaxation is backed exactly when no rung in reach, above the standing level and at most
at the ceiling, has its other requirements met and its sample size by all decisions but not by
the clean ones. -/
theorem relaxation_is_backed_iff (current : AutonomyLevel) (s : TrustStats) :
    (current.value < (recommend (F := ℝ) current s).recommendedLevel.value →
        ∃ r ∈ ladder, r.level = (recommend (F := ℝ) current s).recommendedLevel ∧ Backed s r) ↔
      0 < s.incidents ∨ ∀ r ∈ ladder, current.value < r.level.value →
        r.level.value ≤ (autonomyCeilingFor s.authorityClass).value →
        r.minimum s.authorityClass ≤ s.cleanApprovals ∨
          s.totalDecisions < r.minimum s.authorityClass ∨
          (s.cleanApprovalLowerBound : ℝ) < r.lowerBound / 100 ∨
          (r.maxEditRate : ℝ) / 100 < s.editRate := by
  constructor
  · intro h
    by_cases hincidents : s.incidents = 0
    · refine Or.inr fun r hr habove hceiling => ?_
      by_contra hfails
      simp only [not_or, not_le, not_lt] at hfails
      obtain ⟨hclean, htotal, hbound, hedit⟩ := hfails
      have hsupports : s.supports ℝ r = true :=
        (supports_real_iff s r).mpr ⟨hceiling, htotal, hbound, hedit⟩
      have hreached := le_recommendedLevel current hr
        (not_pinned_of_supports hr hsupports hincidents) hsupports
      obtain ⟨r', hr', hlevel, hbacked⟩ := h (habove.trans_le hreached)
      rw [← hlevel] at hreached
      have hminimum := (ladder_descends hr hr' hreached s.authorityClass).1
      have hbackedsamples := hbacked.samples
      omega
    · exact Or.inl (Nat.pos_of_ne_zero hincidents)
  · intro h habove
    obtain ⟨hpin, r, hr, hlevel, hsupports⟩ := supports_of_relaxation habove
    obtain ⟨hincidents, hrejections⟩ := of_not_pinned hpin
    obtain ⟨hceiling, htotal, hbound, hedit⟩ := (supports_real_iff s r).mp hsupports
    rcases h with hincident | hrungs
    · omega
    · have hclean : r.minimum s.authorityClass ≤ s.cleanApprovals := by
        rw [← hlevel] at habove
        rcases hrungs r hr habove hceiling with hclean | hfew | hlow | hedited
        · exact hclean
        · omega
        · exact absurd hbound (not_le.mpr hlow)
        · exact absurd hedit (not_le.mpr hedited)
      exact ⟨r, hr, hlevel, hincidents, hceiling, hclean, hbound, hedit, hrejections⟩

/-- 120 decisions about internal records, of which one is a rejection. -/
def almostClean : TrustStats where
  agentId := "agent"
  workflowId := "records"
  authorityClass := .modifyInternalRecord
  cleanApprovals := 119
  rejections := 1
  lastUpdated := "2026-01-01T00:00:00+00:00"

/-- Full delegation takes 120 clean decisions and is recommended after 119. -/
theorem relaxation_short_of_clean :
    AutonomyLevel.observeOnly.value <
        (recommend (F := ℝ) .observeOnly almostClean).recommendedLevel.value ∧
      ¬ ∃ r ∈ ladder,
        r.level = (recommend (F := ℝ) .observeOnly almostClean).recommendedLevel ∧
          Backed almostClean r := by
  have hlevel : (recommend (F := ℝ) .observeOnly almostClean).recommendedLevel =
      .delegatedAuthority := by
    apply AutonomyLevel.value_injective
    rw [value_recommendedLevel_real]
    decide +kernel
  rw [hlevel]
  refine ⟨by decide, ?_⟩
  rintro ⟨r, hr, hrung, hbacked⟩
  have hsamples := hbacked.samples
  revert hsamples
  simp only [ladder, List.mem_cons, List.not_mem_nil, or_false] at hr
  rcases hr with rfl | rfl | rfl | rfl
  · decide
  all_goals cases hrung

/-! ## Bad outcomes -/

/-- The outcome lowers a rejection rate of a quarter, which kept the key under approval, and
gives a higher standing level back. -/
def LiftsCap (current : AutonomyLevel) (s : TrustStats) (k : TrustCounter) : Prop :=
  k ≠ .rejections ∧
    (samplesByRisk (baseRiskFor s.authorityClass)).sampling ≤ s.totalDecisions ∧
    s.totalDecisions = 4 * s.rejections ∧
    AutonomyLevel.executeWithApproval.value <
      min current.value (autonomyCeilingFor s.authorityClass).value

/-- The outcome completes the sample size of a rung or brings its edit rate down, where the
other requirements of the rung are still met. -/
def OpensRung (current : AutonomyLevel) (s : TrustStats) (k : TrustCounter) : Prop :=
  ∃ r ∈ ladder, current.value < r.level.value ∧
    r.level.value ≤ (autonomyCeilingFor s.authorityClass).value ∧
    r.minimum s.authorityClass ≤ s.totalDecisions + 1 ∧
    (r.lowerBound : ℝ) / 100 ≤ wilsonLowerBound s.cleanApprovals (s.totalDecisions + 1) ∧
    ((s.plus k).editRate : ℝ) ≤ r.maxEditRate / 100 ∧
    (r.minimum s.authorityClass = s.totalDecisions + 1 ∨
      (r.maxEditRate : ℝ) / 100 < s.editRate)

section

variable {current : AutonomyLevel} {s : TrustStats} {k : TrustCounter}

/-- After a bad decision the bound is computed from one more trial. -/
theorem lowerBound_plus (hclean : k ≠ .cleanApprovals) (hk : k ≠ .incidents) :
    ((s.plus k).cleanApprovalLowerBound : ℝ) =
      wilsonLowerBound s.cleanApprovals (s.totalDecisions + 1) := by
  rw [TrustStats.cleanApprovalLowerBound, cleanApprovals_plus, totalDecisions_plus,
    if_neg hclean, if_neg hk, Nat.add_zero]

/-- A rung is newly supported after a bad decision if it is supported then and the decision
completed its sample size or brought its edit rate down. -/
theorem newly_supported_iff {r : Rung} (hclean : k ≠ .cleanApprovals) (hk : k ≠ .incidents)
    (hsupports : (s.plus k).supports ℝ r = true) :
    s.supports ℝ r = false ↔ r.minimum s.authorityClass = s.totalDecisions + 1 ∨
      (r.maxEditRate : ℝ) / 100 < s.editRate := by
  rw [supports_real_iff, authorityClass_plus, totalDecisions_plus, if_neg hk,
    lowerBound_plus hclean hk] at hsupports
  obtain ⟨hceiling, hminimum, hbound, hedit⟩ := hsupports
  have hbefore : (r.lowerBound : ℝ) / 100 ≤ s.cleanApprovalLowerBound :=
    hbound.trans (wilsonLowerBound_le_of_trial (clean_le_total s))
  rw [← Bool.not_eq_true, supports_real_iff]
  simp only [hceiling, hbefore, true_and, not_and_or, not_le]
  constructor
  · rintro (hfew | hedited)
    · exact Or.inl (by omega)
    · exact Or.inr hedited
  · rintro (hlast | hedited)
    · exact Or.inl (by omega)
    · exact Or.inr hedited

/-- With no incident, a bad decision opens a rung exactly when it supports one above the
standing level that was not supported. -/
theorem opensRung_iff (hclean : k ≠ .cleanApprovals) (hk : k ≠ .incidents) :
    OpensRung current s k ↔ ∃ r ∈ ladder, current.value < r.level.value ∧
      (s.plus k).supports ℝ r = true ∧ s.supports ℝ r = false := by
  refine exists_congr fun r => and_congr_right fun hr => and_congr_right fun _ => ?_
  have hafter : (s.plus k).supports ℝ r = true ↔
      r.level.value ≤ (autonomyCeilingFor s.authorityClass).value ∧
        r.minimum s.authorityClass ≤ s.totalDecisions + 1 ∧
        (r.lowerBound : ℝ) / 100 ≤ wilsonLowerBound s.cleanApprovals (s.totalDecisions + 1) ∧
        ((s.plus k).editRate : ℝ) ≤ r.maxEditRate / 100 := by
    rw [supports_real_iff, authorityClass_plus, totalDecisions_plus, if_neg hk,
      lowerBound_plus hclean hk]
  constructor
  · rintro ⟨hceiling, hminimum, hbound, hedit, hnew⟩
    have hsupports := hafter.mpr ⟨hceiling, hminimum, hbound, hedit⟩
    exact ⟨hsupports, (newly_supported_iff hclean hk hsupports).mpr hnew⟩
  · rintro ⟨hsupports, hnew⟩
    obtain ⟨hceiling, hminimum, hbound, hedit⟩ := hafter.mp hsupports
    exact ⟨hceiling, hminimum, hbound, hedit, (newly_supported_iff hclean hk hsupports).mp hnew⟩

variable (current) in
/-- The ceiling and the standing level bound every recommendation that is not pinned. -/
theorem le_recommendedLevel_of_not_pinned (hpin : s.pinned ℝ = false) :
    min current.value (autonomyCeilingFor s.authorityClass).value ≤
      (recommend (F := ℝ) current s).recommendedLevel.value := by
  rw [value_recommendedLevel, hpin]
  simp only [Bool.false_eq_true, if_false]
  omega

/-- Where neither history is pinned, the level rises exactly when a rung opens. -/
theorem le_recommendedLevel_iff_of_not_pinned (hclean : k ≠ .cleanApprovals)
    (hk : k ≠ .incidents) (hpin : s.pinned ℝ = false) (hpin' : (s.plus k).pinned ℝ = false) :
    (recommend (F := ℝ) current (s.plus k)).recommendedLevel.value ≤
        (recommend (F := ℝ) current s).recommendedLevel.value ↔ ¬ OpensRung current s k := by
  rw [opensRung_iff hclean hk]
  constructor
  · rintro hle ⟨r, hr, habove, hsupports, hnew⟩
    have hreached := (le_recommendedLevel current hr hpin' hsupports).trans hle
    obtain ⟨_, r', hr', hlevel, hsupports'⟩ :=
      supports_of_relaxation (habove.trans_le hreached)
    rw [← hlevel] at hreached
    rw [supports_of_le hr hr' hreached hsupports'] at hnew
    cases hnew
  · intro hclosed
    by_contra hrises
    rw [not_le] at hrises
    have hstanding := le_recommendedLevel_of_not_pinned current hpin
    have hceiling := recommend_le_ceiling (F := ℝ) current (s.plus k)
    rw [authorityClass_plus] at hceiling
    obtain ⟨_, r, hr, hlevel, hsupports⟩ :=
      @supports_of_relaxation current (s.plus k) (by omega)
    have hvalue := congrArg AutonomyLevel.value hlevel
    refine hclosed ⟨r, hr, by omega, hsupports, ?_⟩
    rw [← Bool.not_eq_true]
    intro hbefore
    have hreached := le_recommendedLevel current hr hpin hbefore
    omega

/-- A history that is pinned by its rejections supports nothing after one more bad decision. -/
theorem not_supports_plus_of_pinned {r : Rung} (hr : r ∈ ladder) (hclean : k ≠ .cleanApprovals)
    (hk : k ≠ .incidents) (hrejections : s.totalDecisions ≤ 4 * s.rejections) :
    (s.plus k).supports ℝ r = false := by
  rw [← Bool.not_eq_true, supports_iff_earns _ hr]
  rintro ⟨_, _, ⟨_, hshare, _⟩, _⟩
  rw [cleanApprovals_plus, totalDecisions_plus, if_neg hclean, if_neg hk] at hshare
  obtain ⟨_, _, hlow, _⟩ := ladder_minimum hr s.authorityClass
  have hmany : 80 * (s.totalDecisions + 1) ≤ 100 * (s.cleanApprovals + 0) :=
    (Nat.mul_le_mul_right _ hlow).trans hshare
  unfold TrustStats.totalDecisions at *
  omega

/-- Without incidents it is the rejections that pin a history. -/
theorem pinned_iff_of_no_incident (hincidents : s.incidents = 0) :
    s.pinned ℝ = true ↔
      (samplesByRisk (baseRiskFor s.authorityClass)).sampling ≤ s.totalDecisions ∧
        s.totalDecisions ≤ 4 * s.rejections := by
  rw [pinned_real_iff, hincidents, or_iff_right (Nat.lt_irrefl 0)]

variable (current) in
/-- Where the outcome ends the pinning, the level rises exactly when a cap is lifted, and no
rung opens. -/
theorem le_recommendedLevel_iff_of_pinned (hclean : k ≠ .cleanApprovals) (hk : k ≠ .incidents)
    (hincidents : s.incidents = 0) (hpin : s.pinned ℝ = true)
    (hpin' : (s.plus k).pinned ℝ = false) :
    ((recommend (F := ℝ) current (s.plus k)).recommendedLevel.value ≤
        (recommend (F := ℝ) current s).recommendedLevel.value ↔ ¬ LiftsCap current s k) ∧
      ¬ OpensRung current s k := by
  obtain ⟨hsampling, hmany⟩ := (pinned_iff_of_no_incident hincidents).mp hpin
  have hfree : ¬ (s.plus k).pinned ℝ = true := by
    rw [hpin']
    exact Bool.false_ne_true
  rw [pinned_iff_of_no_incident (by rw [incidents_plus, if_neg hk, hincidents]),
    authorityClass_plus, totalDecisions_plus, rejections_plus, if_neg hk] at hfree
  have hother : k ≠ .rejections := by
    intro hrejection
    rw [if_pos hrejection] at hfree
    omega
  rw [if_neg hother] at hfree
  have hnone : ∀ r ∈ ladder, ¬ (s.plus k).supports ℝ r = true := by
    intro r hr
    rw [not_supports_plus_of_pinned hr hclean hk hmany]
    exact Bool.false_ne_true
  have hlevel : (s.plus k).supportedLevel ℝ = 0 := by
    by_contra hsome
    obtain ⟨r, hr, hsupports, _⟩ :=
      (lt_supportedLevel_iff (s.plus k) 0).mp (Nat.pos_of_ne_zero hsome)
    exact hnone r hr hsupports
  constructor
  · rw [value_recommendedLevel, value_recommendedLevel, hpin, hpin', hlevel,
      authorityClass_plus, LiftsCap]
    simp only [Bool.false_eq_true, if_true, if_false, hother, ne_eq, not_false_eq_true,
      hsampling, true_and]
    omega
  · rw [opensRung_iff hclean hk]
    rintro ⟨r, hr, _, hsupports, _⟩
    exact hnone r hr hsupports

/-- A history that is pinned after the outcome is led to no higher level. -/
theorem le_recommendedLevel_of_pinned (hpin' : (s.plus k).pinned ℝ = true) :
    (recommend (F := ℝ) current (s.plus k)).recommendedLevel.value ≤
      (recommend (F := ℝ) current s).recommendedLevel.value := by
  refine recommendedLevel_le current (authorityClass_plus s k) (fun _ => hpin') ?_
  intro hfree
  rw [hpin'] at hfree
  cases hfree

/-- One more bad outcome raises no level exactly when it is an incident or follows one, or it
neither lifts the cap that the rejections put on the level nor opens a rung. -/
theorem bad_outcome_iff (current : AutonomyLevel) (s : TrustStats) {k : TrustCounter}
    (hclean : k ≠ .cleanApprovals) :
    (recommend (F := ℝ) current (s.plus k)).recommendedLevel.value ≤
        (recommend (F := ℝ) current s).recommendedLevel.value ↔
      k = .incidents ∨ 0 < s.incidents ∨ (¬ LiftsCap current s k ∧ ¬ OpensRung current s k) := by
  by_cases hincident : 0 < (s.plus k).incidents
  · have hpin' : (s.plus k).pinned ℝ = true := (pinned_real_iff _).mpr (Or.inl hincident)
    refine iff_of_true (le_recommendedLevel_of_pinned hpin') ?_
    rw [incidents_plus] at hincident
    by_cases hk : k = .incidents
    · exact Or.inl hk
    · rw [if_neg hk] at hincident
      exact Or.inr (Or.inl hincident)
  · have hnone := Nat.eq_zero_of_not_pos hincident
    rw [incidents_plus] at hnone
    have hk : k ≠ .incidents := by
      intro hk
      rw [if_pos hk] at hnone
      omega
    have hincidents : s.incidents = 0 := by omega
    simp only [hk, hincidents, Nat.lt_irrefl, false_or]
    cases hpin' : (s.plus k).pinned ℝ with
    | true =>
      refine iff_of_true (le_recommendedLevel_of_pinned hpin') ⟨?_, ?_⟩
      · rintro ⟨hother, _, hquarter, _⟩
        rw [pinned_iff_of_no_incident (by omega), totalDecisions_plus, rejections_plus, if_neg hk,
          if_neg hother] at hpin'
        omega
      · rw [opensRung_iff hclean hk]
        rintro ⟨r, hr, _, hsupports, _⟩
        rw [not_pinned_of_supports hr hsupports (by omega)] at hpin'
        cases hpin'
    | false =>
      cases hpin : s.pinned ℝ with
      | false =>
        have hcap : ¬ LiftsCap current s k := by
          rintro ⟨_, hsampling, hquarter, _⟩
          rw [(pinned_iff_of_no_incident hincidents).mpr ⟨hsampling, hquarter.le⟩] at hpin
          cases hpin
        rw [le_recommendedLevel_iff_of_not_pinned hclean hk hpin hpin', and_iff_right hcap]
      | true =>
        obtain ⟨hiff, hclosed⟩ :=
          le_recommendedLevel_iff_of_pinned current hclean hk hincidents hpin hpin'
        rw [hiff, and_iff_left hclosed]

end

/-- 119 clean decisions. -/
def onlyClean : TrustStats := { almostClean with rejections := 0 }

/-- A quarter of the decisions rejected. -/
def quarterRejected : TrustStats := { almostClean with cleanApprovals := 6, rejections := 2 }

/-- A little more than a tenth of the decisions edited. -/
def tenthEdited : TrustStats :=
  { almostClean with cleanApprovals := 1007, modifiedApprovals := 112, rejections := 0 }

/-- A rejection completes the sample size of full delegation, an escalation ends the pinning of
an agent that stands higher, and a rejection brings an edit rate down to a tenth. -/
theorem bad_outcomes_raise :
    (recommend (F := ℝ) .observeOnly onlyClean).recommendedLevel.value <
        (recommend (F := ℝ) .observeOnly (onlyClean.plus .rejections)).recommendedLevel.value ∧
      (recommend (F := ℝ) .conditionalAutonomy quarterRejected).recommendedLevel.value <
        (recommend (F := ℝ) .conditionalAutonomy
          (quarterRejected.plus .escalations)).recommendedLevel.value ∧
      (recommend (F := ℝ) .observeOnly tenthEdited).recommendedLevel.value <
        (recommend (F := ℝ) .observeOnly
          (tenthEdited.plus .rejections)).recommendedLevel.value := by
  simp only [value_recommendedLevel_real]
  decide +kernel

/-- An incident raises nothing. -/
theorem incident_raises_nothing :
    (recommend (F := ℝ) .observeOnly (onlyClean.plus .incidents)).recommendedLevel.value ≤
      (recommend (F := ℝ) .observeOnly onlyClean).recommendedLevel.value :=
  (bad_outcome_iff .observeOnly onlyClean (by decide)).mpr (Or.inl rfl)

/-! ## Clean work -/

/-- A rate falls when a decision of another kind comes in. -/
theorem rate_plus_le {s s' : TrustStats} {count : Nat} (hcount : count ≤ s.totalDecisions)
    (htotal : s.totalDecisions ≤ s'.totalDecisions) : (s'.rate count : ℝ) ≤ s.rate count := by
  rw [TrustStats.rate, TrustStats.rate]
  by_cases hnone : s.totalDecisions = 0
  · have hzero : count = 0 := by omega
    rw [hzero]
    split_ifs <;> simp
  · rw [if_neg hnone, if_neg (by omega), ratio_real, ratio_real]
    have hpos : (0 : ℝ) < s.totalDecisions := Nat.cast_pos.mpr (Nat.pos_of_ne_zero hnone)
    have hmore : (s.totalDecisions : ℝ) ≤ s'.totalDecisions := Nat.cast_le.mpr htotal
    gcongr

/-- What a rung takes is kept by a clean approval. -/
theorem supports_plus_clean {s : TrustStats} {r : Rung} (h : s.supports ℝ r = true) :
    (s.plus .cleanApprovals).supports ℝ r = true := by
  rw [supports_real_iff] at h ⊢
  obtain ⟨hceiling, hminimum, hbound, hedit⟩ := h
  have hmore : s.totalDecisions ≤ (s.plus .cleanApprovals).totalDecisions := by simp
  refine ⟨hceiling, hminimum.trans hmore, ?_, ?_⟩
  · have hgrows := wilsonLowerBound_le_of_success (clean_le_total s)
    simp only [TrustStats.cleanApprovalLowerBound, cleanApprovals_plus, totalDecisions_plus,
      reduceCtorEq, if_true, if_false] at hbound ⊢
    linarith
  · have hedits : s.modifiedApprovals ≤ s.totalDecisions := by
      unfold TrustStats.totalDecisions
      omega
    exact (rate_plus_le hedits hmore).trans hedit

/-- One more clean approval never lowers what is recommended to an agent below the rungs that
are earned. -/
theorem le_recommendedLevel_plus_clean {current : AutonomyLevel} (s : TrustStats)
    (hcurrent : current.value ≤ AutonomyLevel.executeWithApproval.value) :
    (recommend (F := ℝ) current s).recommendedLevel.value ≤
      (recommend (F := ℝ) current (s.plus .cleanApprovals)).recommendedLevel.value := by
  cases hpin' : (s.plus .cleanApprovals).pinned ℝ with
  | false =>
    refine recommendedLevel_le current rfl (fun h => ?_)
      fun _ r _ hsupports => supports_plus_clean hsupports
    rw [hpin'] at h
    cases h
  | true =>
    -- the sampling minimum may be crossed, but below it no rung is supported
    have hlevel : s.pinned ℝ = true ∨ s.supportedLevel ℝ = 0 := by
      by_contra hopen
      rw [not_or] at hopen
      obtain ⟨hfree, hsome⟩ := hopen
      obtain ⟨r, hr, hsupports, _⟩ :=
        (lt_supportedLevel_iff s 0).mp (Nat.pos_of_ne_zero hsome)
      obtain ⟨_, hminimum, _⟩ := (supports_real_iff s r).mp hsupports
      have hsampling := (ladder_minimum hr s.authorityClass).1
      rw [pinned_real_iff] at hfree hpin'
      simp only [incidents_plus, authorityClass_plus, totalDecisions_plus, rejections_plus,
        reduceCtorEq, if_false] at hpin'
      omega
    rw [value_recommendedLevel, value_recommendedLevel, hpin', authorityClass_plus]
    simp only [if_true]
    rcases hlevel with hpin | hnone
    · rw [hpin]
      simp
    · rw [hnone]
      split <;> omega

/-- One clean approval replaced. -/
def TrustStats.replaceClean (s : TrustStats) (k : TrustCounter) : TrustStats :=
  { s with cleanApprovals := s.cleanApprovals - 1 }.plus k

/-- A bad decision in the place of a clean approval never raises the level. -/
theorem recommendedLevel_replaceClean_le (current : AutonomyLevel) {s : TrustStats}
    {k : TrustCounter} (hsome : 0 < s.cleanApprovals) (hclean : k ≠ .cleanApprovals)
    (hk : k ≠ .incidents) :
    (recommend (F := ℝ) current (s.replaceClean k)).recommendedLevel.value ≤
      (recommend (F := ℝ) current s).recommendedLevel.value := by
  have htotal : (s.replaceClean k).totalDecisions = s.totalDecisions := by
    rw [TrustStats.replaceClean, totalDecisions_plus, if_neg hk]
    unfold TrustStats.totalDecisions
    dsimp only
    omega
  have hclass : (s.replaceClean k).authorityClass = s.authorityClass := authorityClass_plus _ k
  have hincidents : (s.replaceClean k).incidents = s.incidents := by
    rw [TrustStats.replaceClean, incidents_plus, if_neg hk, Nat.add_zero]
  have hrejections : s.rejections ≤ (s.replaceClean k).rejections := by
    rw [TrustStats.replaceClean, rejections_plus]
    exact Nat.le_add_right _ _
  have hedits : s.modifiedApprovals ≤ (s.replaceClean k).modifiedApprovals := by
    rw [TrustStats.replaceClean, modifiedApprovals_plus]
    exact Nat.le_add_right _ _
  have hfewer : (s.replaceClean k).cleanApprovals ≤ s.cleanApprovals := by
    rw [TrustStats.replaceClean, cleanApprovals_plus, if_neg hclean]
    exact Nat.sub_le _ _
  refine recommendedLevel_le current hclass (fun hpin => ?_) fun _ r _ hsupports => ?_
  · rw [pinned_real_iff] at hpin ⊢
    rw [hincidents, hclass, htotal]
    omega
  · rw [supports_real_iff, hclass, htotal] at hsupports
    obtain ⟨hceiling, hminimum, hbound, hedit⟩ := hsupports
    rw [supports_real_iff]
    refine ⟨hceiling, hminimum, hbound.trans ?_, le_trans ?_ hedit⟩
    · rw [TrustStats.cleanApprovalLowerBound, TrustStats.cleanApprovalLowerBound, htotal]
      exact wilsonLowerBound_le_of_successes hfewer (clean_le_total s)
    · rw [TrustStats.editRate, TrustStats.editRate, TrustStats.rate, TrustStats.rate, htotal]
      split_ifs
      · exact le_rfl
      · rw [ratio_real, ratio_real]
        have hcast : (s.modifiedApprovals : ℝ) ≤ (s.replaceClean k).modifiedApprovals :=
          Nat.cast_le.mpr hedits
        gcongr

/-- Clean work counts upward: a further clean approval lowers no level of an agent that stands
at approval or below, and a bad decision in the place of a clean one raises none. -/
theorem clean_work_counts_upward (current : AutonomyLevel) (s : TrustStats) :
    (current.value ≤ AutonomyLevel.executeWithApproval.value →
        (recommend (F := ℝ) current s).recommendedLevel.value ≤
          (recommend (F := ℝ) current (s.plus .cleanApprovals)).recommendedLevel.value) ∧
      ∀ k, k ≠ .cleanApprovals → k ≠ .incidents → 0 < s.cleanApprovals →
        (recommend (F := ℝ) current (s.replaceClean k)).recommendedLevel.value ≤
          (recommend (F := ℝ) current s).recommendedLevel.value :=
  ⟨fun h => le_recommendedLevel_plus_clean s h,
    fun _ hclean hk hsome => recommendedLevel_replaceClean_le current hsome hclean hk⟩

/-- One more clean approval for an agent that only observes, and a rejection in the place of a
clean one. -/
theorem clean_work_counts_for_onlyClean :
    (recommend (F := ℝ) .observeOnly onlyClean).recommendedLevel.value ≤
        (recommend (F := ℝ) .observeOnly (onlyClean.plus .cleanApprovals)).recommendedLevel.value ∧
      (recommend (F := ℝ) .observeOnly
          (onlyClean.replaceClean .rejections)).recommendedLevel.value ≤
        (recommend (F := ℝ) .observeOnly onlyClean).recommendedLevel.value :=
  ⟨(clean_work_counts_upward .observeOnly onlyClean).1 (by decide),
    (clean_work_counts_upward .observeOnly onlyClean).2 .rejections (by decide) (by decide)
      (by decide)⟩

end EarnedAutonomy
