import EarnedAutonomy.Core.Recommendations
import EarnedAutonomy.Lib.Search
import EarnedAutonomy.Lib.Wilson
import EarnedAutonomy.Python.RealArithmetic

/-!
# The evidence behind a recommendation

`value_recommendedLevel` reads a recommendation off two facts about the history: whether
it is pinned to approval, and the highest rung that it supports.  Both are stated for any
arithmetic.

Over exact reals they are facts about whole numbers (`pinned_real_iff`,
`supports_real_iff`): the Wilson bound reaches the threshold of a rung when the score test
is passed, and no root is left.

`wilson_bound_laws`: the bound is at most the rate of the successes, a success raises it and
any other trial does not.
-/

namespace EarnedAutonomy

open Arithmetic

/-! ## The ladder -/

/-- The sample size of a rung for an authority class. -/
def Rung.minimum (r : Rung) (c : AuthorityClass) : Nat := r.samples (samplesByRisk (baseRiskFor c))

theorem pairwise_ladder : ladder.Pairwise fun a b => b.level.value ≤ a.level.value := by
  decide

/-- A lower rung asks for no more. -/
theorem ladder_descends {r r' : Rung} (hr : r ∈ ladder) (hr' : r' ∈ ladder)
    (h : r.level.value ≤ r'.level.value) (c : AuthorityClass) :
    r.minimum c ≤ r'.minimum c ∧ r.lowerBound ≤ r'.lowerBound ∧
      r'.maxEditRate ≤ r.maxEditRate := by
  unfold Rung.minimum
  simp only [ladder, List.mem_cons, List.not_mem_nil, or_false] at hr hr'
  rcases hr with rfl | rfl | rfl | rfl <;> rcases hr' with rfl | rfl | rfl | rfl <;>
    first
    | exact absurd h (by decide)
    | cases baseRiskFor c <;> decide

/-- Every rung takes the sampling minimum, which is above 0, and a lower bound between 0.8
and 1. -/
theorem ladder_minimum {r : Rung} (hr : r ∈ ladder) (c : AuthorityClass) :
    (samplesByRisk (baseRiskFor c)).sampling ≤ r.minimum c ∧
      0 < (samplesByRisk (baseRiskFor c)).sampling ∧ 80 ≤ r.lowerBound ∧ r.lowerBound < 100 := by
  unfold Rung.minimum
  simp only [ladder, List.mem_cons, List.not_mem_nil, or_false] at hr
  rcases hr with rfl | rfl | rfl | rfl <;> cases baseRiskFor c <;> decide

/-! ## What a recommendation rests on -/

section

variable {F : Type} [Arithmetic F]

variable (F) in
/-- The history keeps the key under approval. -/
def TrustStats.pinned (s : TrustStats) : Bool :=
  Nat.ble 1 s.incidents ||
    (Nat.ble (samplesByRisk (baseRiskFor s.authorityClass)).sampling s.totalDecisions &&
      le (decimal 25 2) (s.rejectionRate : F))

variable (F) in
/-- The evidence supports the rung, and the class may reach it. -/
def TrustStats.supports (s : TrustStats) (r : Rung) : Bool :=
  Nat.ble r.level.value (autonomyCeilingFor s.authorityClass).value &&
    r.supported s (s.cleanApprovalLowerBound : F)

variable (F) in
/-- The highest rung that is supported, 0 if none is. -/
def TrustStats.supportedLevel (s : TrustStats) : Nat :=
  ((ladder.find? (s.supports F)).map fun r => r.level.value).getD 0

variable (current : AutonomyLevel) (s : TrustStats)

theorem AutonomyLevel.value_raisedTo (a b : AutonomyLevel) :
    (a.raisedTo b).value = max a.value b.value := by
  unfold AutonomyLevel.raisedTo
  split <;> omega

/-- A pinned history caps the standing level, any other one lifts it to the highest rung that
it supports; the ceiling holds in both cases. -/
theorem value_recommendedLevel :
    (recommend (F := F) current s).recommendedLevel.value =
      min (if s.pinned F then min current.value AutonomyLevel.executeWithApproval.value
        else max current.value (s.supportedLevel F))
        (autonomyCeilingFor s.authorityClass).value := by
  unfold recommend TrustStats.supportedLevel TrustStats.supports
  dsimp only
  by_cases hincidents : 0 < s.incidents
  · have hpinned : s.pinned F = true := by
      simp only [TrustStats.pinned, Bool.or_eq_true, Nat.ble_eq]
      exact Or.inl hincidents
    rw [if_pos hincidents, if_pos hpinned]
    simp only [AutonomyLevel.value_cappedAt]
  · have hpinned : s.pinned F =
        (Nat.ble (samplesByRisk (baseRiskFor s.authorityClass)).sampling s.totalDecisions &&
          le (decimal 25 2) (s.rejectionRate : F)) := by
      have hnone : Nat.ble 1 s.incidents = false := by
        rw [← Bool.not_eq_true, Nat.ble_eq]
        exact hincidents
      rw [TrustStats.pinned, hnone, Bool.false_or]
    rw [if_neg hincidents, hpinned]
    split
    · simp only [AutonomyLevel.value_cappedAt]
    · cases ladder.find? _ with
      | none => simp [AutonomyLevel.value_cappedAt]
      | some r => simp [AutonomyLevel.value_cappedAt, AutonomyLevel.value_raisedTo]

theorem lt_supportedLevel_iff (n : Nat) :
    n < s.supportedLevel F ↔ ∃ r ∈ ladder, s.supports F r = true ∧ n < r.level.value :=
  Search.lt_find?_iff pairwise_ladder n

end

/-! ## In whole numbers -/

/-- The bound of the code, over the reals. -/
theorem wilsonLowerBound_real (c n : Nat) :
    (wilsonLowerBound c n : ℝ) = if n = 0 then 0 else Wilson.lowerBound (196 / 100) c n := by
  unfold wilsonLowerBound
  by_cases hn : n = 0
  · rw [if_pos hn, if_pos hn]
    exact Nat.cast_zero
  · rw [if_neg hn, if_neg hn, Wilson.lowerBound, Wilson.score]
    simp only [ratio_real, decimal_real, ofNat_real, add_real, sub_real, mul_real, div_real,
      sqrt_real, lt_real, Nat.cast_mul, Nat.cast_ofNat, Nat.cast_one, Nat.cast_zero]
    norm_num only
    split
    · rename_i hpos
      rw [max_eq_right hpos.le]
    · rename_i hneg
      rw [max_eq_left (not_lt.mp hneg)]

/-- A percentage below the bound, in whole numbers: the score test is passed from below. -/
def BoundReaches (percent c n : Nat) : Prop :=
  0 < n ∧ percent * n ≤ 100 * c ∧
    2401 * (percent * (100 - percent)) * n ≤ 625 * (100 * c - percent * n) ^ 2

instance (percent c n : Nat) : Decidable (BoundReaches percent c n) :=
  inferInstanceAs (Decidable (_ ∧ _))

theorem boundReaches_iff {percent c n : Nat} (hc : c ≤ n) (h0 : 0 < percent) (h1 : percent < 100) :
    (percent : ℝ) / 100 ≤ (wilsonLowerBound c n : ℝ) ↔ BoundReaches percent c n := by
  have hpercent : (0 : ℝ) < percent := Nat.cast_pos.mpr h0
  rw [wilsonLowerBound_real]
  split
  · rename_i hn
    subst hn
    have hfar : ¬ (percent : ℝ) / 100 ≤ 0 := by
      rw [not_le]
      positivity
    exact iff_of_false hfar fun h => Nat.lt_irrefl 0 h.1
  · rename_i hn
    have hn' : 0 < n := Nat.pos_of_ne_zero hn
    have hcast : (0 : ℝ) < n := Nat.cast_pos.mpr hn'
    have hlt : (percent : ℝ) / 100 < 1 := by
      rw [div_lt_one (by norm_num)]
      exact_mod_cast h1
    rw [Wilson.le_lowerBound_iff_sq (by norm_num) hcast (Nat.cast_nonneg c)
      (Nat.cast_le.mpr hc) (by positivity) hlt, BoundReaches]
    simp only [hn', true_and]
    have hshare : (percent : ℝ) / 100 * n ≤ c ↔ percent * n ≤ 100 * c := by
      rw [div_mul_eq_mul_div, div_le_iff₀ (by norm_num), mul_comm (c : ℝ)]
      exact_mod_cast Iff.rfl
    rw [hshare]
    refine and_congr_right fun h => ?_
    have htest : (196 / 100 : ℝ) ^ 2 * (percent / 100 * (1 - percent / 100)) * n ≤
        (c - percent / 100 * n) ^ 2 ↔
        2401 * ((percent : ℝ) * (100 - percent)) * n ≤ 625 * (100 * c - percent * n) ^ 2 := by
      constructor <;> intro h <;> nlinarith
    rw [htest, ← @Nat.cast_le ℝ]
    simp only [Nat.cast_mul, Nat.cast_ofNat, Nat.cast_pow, Nat.cast_sub h1.le, Nat.cast_sub h]

/-- The trials grow and the successes do not. -/
theorem wilsonLowerBound_le_of_trial {c n : Nat} (hc : c ≤ n) :
    (wilsonLowerBound c (n + 1) : ℝ) ≤ wilsonLowerBound c n := by
  rw [wilsonLowerBound_real, wilsonLowerBound_real, if_neg (Nat.succ_ne_zero n)]
  split
  · rename_i hn
    subst hn
    rw [Nat.le_zero.mp hc, Nat.cast_zero]
    exact (Wilson.lowerBound_zero (by norm_num) (by norm_num)).le
  · rename_i hn
    exact Wilson.lowerBound_le_of_trials (by norm_num) (Nat.cast_pos.mpr (Nat.pos_of_ne_zero hn))
      (Nat.cast_nonneg c) (Nat.cast_le.mpr hc) (Nat.cast_le.mpr (Nat.le_succ n))

/-- One more trial succeeds. -/
theorem wilsonLowerBound_le_of_success {c n : Nat} (hc : c ≤ n) :
    (wilsonLowerBound c n : ℝ) ≤ wilsonLowerBound (c + 1) (n + 1) := by
  rw [wilsonLowerBound_real, wilsonLowerBound_real, if_neg (Nat.succ_ne_zero n)]
  split
  · exact Wilson.lowerBound_nonneg _ _ _
  · rename_i hn
    rw [Nat.cast_succ, Nat.cast_succ]
    exact Wilson.lowerBound_le_of_successful_trials (by norm_num)
      (Nat.cast_pos.mpr (Nat.pos_of_ne_zero hn)) (Nat.cast_nonneg c) (Nat.cast_le.mpr hc)
      zero_le_one

/-- More of the same trials succeed. -/
theorem wilsonLowerBound_le_of_successes {c c' n : Nat} (hcc' : c ≤ c') (hc' : c' ≤ n) :
    (wilsonLowerBound c n : ℝ) ≤ wilsonLowerBound c' n := by
  rw [wilsonLowerBound_real, wilsonLowerBound_real]
  split
  · exact le_rfl
  · rename_i hn
    exact Wilson.lowerBound_le_of_successes (by norm_num)
      (Nat.cast_pos.mpr (Nat.pos_of_ne_zero hn)) (Nat.cast_nonneg c) (Nat.cast_le.mpr hcc')
      (Nat.cast_le.mpr hc')

/-- The laws of the bound for `s` successes in `n` trials, with the steps of its formula. -/
structure WilsonLaws (s n : ℕ) : Prop where
  denominator : 0 < 1 + (196 / 100 * (196 / 100) : ℝ) / n
  radicand : 0 ≤ ((s : ℝ) / n * (1 - s / n) + 196 / 100 * (196 / 100) / (4 * n)) / n
  formula : (wilsonLowerBound s n : ℝ) = max 0
    (((s : ℝ) / n + 196 / 100 * (196 / 100) / (2 * n) - 196 / 100 *
      √(((s : ℝ) / n * (1 - s / n) + 196 / 100 * (196 / 100) / (4 * n)) / n)) /
        (1 + 196 / 100 * (196 / 100) / n))
  nonneg : 0 ≤ (wilsonLowerBound s n : ℝ)
  le_rate : (wilsonLowerBound s n : ℝ) ≤ s / n
  zero : s = 0 → (wilsonLowerBound s n : ℝ) = 0
  success : (wilsonLowerBound s n : ℝ) < wilsonLowerBound (s + 1) (n + 1)
  trial : (wilsonLowerBound s (n + 1) : ℝ) ≤ wilsonLowerBound s n
  successes : s < n → (wilsonLowerBound s n : ℝ) ≤ wilsonLowerBound (s + 1) n

/-- The bound obeys its laws for all counts. -/
theorem wilson_bound_laws {s n : ℕ} (hs : s ≤ n) (hn : 1 ≤ n) : WilsonLaws s n := by
  have hpos : (0 : ℝ) < n := Nat.cast_pos.mpr hn
  have hle : (s : ℝ) ≤ n := Nat.cast_le.mpr hs
  have hz : (0 : ℝ) < 196 / 100 := by norm_num
  have hreal : (wilsonLowerBound s n : ℝ) = Wilson.lowerBound (196 / 100) s n := by
    rw [wilsonLowerBound_real, if_neg (Nat.pos_iff_ne_zero.mp hn)]
  have hnext : (wilsonLowerBound (s + 1) (n + 1) : ℝ) =
      Wilson.lowerBound (196 / 100) (s + 1) (n + 1) := by
    rw [wilsonLowerBound_real, if_neg (Nat.succ_ne_zero n), Nat.cast_succ, Nat.cast_succ]
  refine ⟨Wilson.denominator_pos hpos, Wilson.radicand_nonneg hpos (Nat.cast_nonneg s) hle,
    hreal, ?_, ?_, ?_, ?_, wilsonLowerBound_le_of_trial hs, fun hlt => ?_⟩
  · rw [hreal]
    exact Wilson.lowerBound_nonneg _ _ _
  · rw [hreal]
    exact Wilson.lowerBound_le_rate hz hpos (Nat.cast_nonneg s) hle
  · rintro rfl
    rw [hreal, Nat.cast_zero]
    exact Wilson.lowerBound_zero hz hpos
  · rw [hreal, hnext]
    exact Wilson.lowerBound_lt_of_successful_trials hz hpos (Nat.cast_nonneg s) hle one_pos
  · exact wilsonLowerBound_le_of_successes (Nat.le_succ s) hlt

theorem wilson_bound_laws_fifth : WilsonLaws 1 5 := wilson_bound_laws (by decide) (by decide)

section

variable (s : TrustStats)

theorem clean_le_total : s.cleanApprovals ≤ s.totalDecisions := by
  unfold TrustStats.totalDecisions
  omega

/-- A rate against a percentage, once there are decisions. -/
theorem rate_le_iff {s : TrustStats} (h : 0 < s.totalDecisions) (count percent : Nat) :
    (s.rate count : ℝ) ≤ percent / 100 ↔ 100 * count ≤ percent * s.totalDecisions := by
  have htotal : (0 : ℝ) < s.totalDecisions := Nat.cast_pos.mpr h
  rw [TrustStats.rate, if_neg (Nat.pos_iff_ne_zero.mp h), ratio_real,
    div_le_div_iff₀ htotal (by norm_num), mul_comm (count : ℝ)]
  exact_mod_cast Iff.rfl

theorem pinned_real_iff :
    s.pinned ℝ = true ↔ 0 < s.incidents ∨
      ((samplesByRisk (baseRiskFor s.authorityClass)).sampling ≤ s.totalDecisions ∧
        s.totalDecisions ≤ 4 * s.rejections) := by
  have hpos : 0 < (samplesByRisk (baseRiskFor s.authorityClass)).sampling := by
    cases baseRiskFor s.authorityClass <;> decide
  rw [TrustStats.pinned, Bool.or_eq_true, Bool.and_eq_true, Nat.ble_eq, Nat.ble_eq, le_real]
  refine or_congr Iff.rfl (and_congr_right fun hsampling => ?_)
  have htotal : (0 : ℝ) < s.totalDecisions := Nat.cast_pos.mpr (hpos.trans_le hsampling)
  rw [TrustStats.rejectionRate, TrustStats.rate, if_neg (by omega), ratio_real, decimal_real,
    div_le_div_iff₀ (by norm_num) htotal]
  constructor
  · intro h
    have hcast : (s.totalDecisions : ℝ) ≤ 4 * s.rejections := by
      push_cast at h
      linarith
    exact_mod_cast hcast
  · intro h
    have hcast : (s.totalDecisions : ℝ) ≤ 4 * s.rejections := by exact_mod_cast h
    push_cast
    linarith

/-- What a rung takes, in the terms of the code. -/
theorem supports_real_iff (r : Rung) :
    s.supports ℝ r = true ↔
      r.level.value ≤ (autonomyCeilingFor s.authorityClass).value ∧
        r.minimum s.authorityClass ≤ s.totalDecisions ∧
        (r.lowerBound : ℝ) / 100 ≤ s.cleanApprovalLowerBound ∧
        (s.editRate : ℝ) ≤ r.maxEditRate / 100 := by
  have hhundred : (10 : ℝ) ^ 2 = 100 := by norm_num
  rw [TrustStats.supports, Rung.supported, Bool.and_eq_true, Bool.and_eq_true, Bool.and_eq_true,
    Nat.ble_eq, Nat.ble_eq, le_real, le_real, decimal_real, decimal_real, hhundred, and_assoc]
  rfl

/-- What it takes in whole numbers. -/
def TrustStats.Earns (r : Rung) : Prop :=
  r.level.value ≤ (autonomyCeilingFor s.authorityClass).value ∧
    r.minimum s.authorityClass ≤ s.totalDecisions ∧
    BoundReaches r.lowerBound s.cleanApprovals s.totalDecisions ∧
    100 * s.modifiedApprovals ≤ r.maxEditRate * s.totalDecisions

instance (r : Rung) : Decidable (s.Earns r) := inferInstanceAs (Decidable (_ ∧ _))

theorem supports_iff_earns {r : Rung} (hr : r ∈ ladder) :
    s.supports ℝ r = true ↔ s.Earns r := by
  obtain ⟨hsampling, hpos, hlow, hhigh⟩ := ladder_minimum hr s.authorityClass
  rw [supports_real_iff, TrustStats.Earns]
  refine and_congr_right fun _ => and_congr_right fun hminimum => ?_
  have hbound : (r.lowerBound : ℝ) / 100 ≤ s.cleanApprovalLowerBound ↔
      BoundReaches r.lowerBound s.cleanApprovals s.totalDecisions :=
    boundReaches_iff (clean_le_total s) (by omega) hhigh
  rw [hbound, TrustStats.editRate, rate_le_iff (by omega)]

/-- The recommendation over the reals, computed. -/
def TrustStats.earnedLevel (current : AutonomyLevel) : Nat :=
  min
    (if 0 < s.incidents ∨
        ((samplesByRisk (baseRiskFor s.authorityClass)).sampling ≤ s.totalDecisions ∧
          s.totalDecisions ≤ 4 * s.rejections) then
      min current.value AutonomyLevel.executeWithApproval.value
    else
      max current.value
        (((ladder.find? fun r => Decidable.decide (s.Earns r)).map fun r => r.level.value).getD 0))
    (autonomyCeilingFor s.authorityClass).value

theorem value_recommendedLevel_real (current : AutonomyLevel) :
    (recommend (F := ℝ) current s).recommendedLevel.value = s.earnedLevel current := by
  have hfind : ladder.find? (s.supports ℝ) = ladder.find? fun r => decide (s.Earns r) := by
    refine List.find?_congr fun r hr => ?_
    rw [Bool.eq_iff_iff, supports_iff_earns s hr, decide_eq_true_iff]
  rw [value_recommendedLevel, TrustStats.supportedLevel, hfind, TrustStats.earnedLevel]
  simp only [pinned_real_iff]

/-- A rung that is supported leaves room for fewer than a fifth of rejections, so the history is
not pinned by them. -/
theorem not_pinned_of_supports {s : TrustStats} {r : Rung} (hr : r ∈ ladder)
    (h : s.supports ℝ r = true) (hincidents : s.incidents = 0) : s.pinned ℝ = false := by
  obtain ⟨hsampling, hpos, hlow, _⟩ := ladder_minimum hr s.authorityClass
  obtain ⟨_, hminimum, ⟨_, hshare, _⟩, _⟩ := (supports_iff_earns s hr).mp h
  have hclean : 80 * s.totalDecisions ≤ 100 * s.cleanApprovals :=
    (Nat.mul_le_mul_right _ hlow).trans hshare
  rw [← Bool.not_eq_true, pinned_real_iff]
  unfold TrustStats.totalDecisions at *
  omega

end

end EarnedAutonomy
