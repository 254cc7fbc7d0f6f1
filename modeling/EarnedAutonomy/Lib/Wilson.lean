import Mathlib.Analysis.Real.Sqrt
import Mathlib.Tactic.LinearCombination
import Mathlib.Tactic.FieldSimp

/-!
# The Wilson score lower bound

The lower end of the Wilson interval for `c` successes in `n` trials at the
quantile `z`, cut at 0.

`le_lowerBound_iff` inverts it: a rate `t` is below the bound exactly when the
score test of `t` against the trials is passed, `t * n + z * √(t * (1 - t) * n) ≤ c`.
The order laws come from this reading: more successes raise the bound, more
trials lower it, and a trial that succeeds raises it.
-/

namespace Wilson

/-- The lower end of the interval, before the cut at 0. -/
noncomputable def score (z c n : ℝ) : ℝ :=
  (c / n + z * z / (2 * n) -
    z * √((c / n * (1 - c / n) + z * z / (4 * n)) / n)) / (1 + z * z / n)

/-- The lower bound. -/
noncomputable def lowerBound (z c n : ℝ) : ℝ := max 0 (score z c n)

theorem lowerBound_nonneg (z c n : ℝ) : 0 ≤ lowerBound z c n := le_max_left _ _

section

variable {z c n t : ℝ}

theorem radicand_nonneg (hn : 0 < n) (hc : 0 ≤ c) (hcn : c ≤ n) :
    0 ≤ (c / n * (1 - c / n) + z * z / (4 * n)) / n := by
  have hrate : c / n ≤ 1 := (div_le_one hn).mpr hcn
  have hspread : 0 ≤ c / n * (1 - c / n) := mul_nonneg (div_nonneg hc hn.le) (by linarith)
  have hwidth : 0 ≤ z * z / (4 * n) := div_nonneg (mul_self_nonneg z) (by linarith)
  exact div_nonneg (by linarith) hn.le

theorem denominator_pos (hn : 0 < n) : 0 < 1 + z * z / n := by
  have hz : 0 ≤ z * z / n := div_nonneg (mul_self_nonneg z) hn.le
  linarith

/-- How far the score is from `t`: by the distance that the margin is compared with. -/
private theorem score_sub (hn : 0 < n) (t : ℝ) :
    score z c n - t =
      (c / n - t + z * z / (2 * n) * (1 - 2 * t) -
        z * √((c / n * (1 - c / n) + z * z / (4 * n)) / n)) / (1 + z * z / n) := by
  have hdenominator : 1 + z * z / n ≠ 0 := (denominator_pos hn).ne'
  have hsplit : z * z / n = 2 * (z * z / (2 * n)) := by
    field_simp
  rw [score, eq_div_iff hdenominator, sub_mul, div_mul_cancel₀ _ hdenominator, hsplit]
  ring

private theorem le_score_iff_margin (hn : 0 < n) :
    t ≤ score z c n ↔
      z * √((c / n * (1 - c / n) + z * z / (4 * n)) / n) ≤
        c / n - t + z * z / (2 * n) * (1 - 2 * t) := by
  rw [← sub_nonneg, score_sub hn, le_div_iff₀ (denominator_pos hn), zero_mul, sub_nonneg]

private theorem lt_score_iff_margin (hn : 0 < n) :
    t < score z c n ↔
      z * √((c / n * (1 - c / n) + z * z / (4 * n)) / n) <
        c / n - t + z * z / (2 * n) * (1 - 2 * t) := by
  rw [← sub_pos, score_sub hn, lt_div_iff₀ (denominator_pos hn), zero_mul, sub_pos]

/-- The square of that distance and the margin differ by the score test. -/
private theorem margin_sq (hn : 0 < n) :
    (c / n - t + z * z / (2 * n) * (1 - 2 * t)) ^ 2 -
        z ^ 2 * ((c / n * (1 - c / n) + z * z / (4 * n)) / n) =
      (1 + z * z / n) * ((c - t * n) ^ 2 - z ^ 2 * (t * (1 - t)) * n) / n ^ 2 := by
  field_simp
  ring

/-- A multiple of a root is at most a number when its square is. -/
private theorem mul_sqrt_le_iff {a b x : ℝ} (ha : 0 ≤ a) :
    a * √x ≤ b ↔ 0 ≤ b ∧ a ^ 2 * x ≤ b ^ 2 := by
  rw [← Real.sqrt_sq ha, ← Real.sqrt_mul (sq_nonneg a), Real.sqrt_le_iff, Real.sqrt_sq ha]

private theorem mul_sqrt_lt_iff {a b x : ℝ} (ha : 0 ≤ a) :
    a * √x < b ↔ 0 < b ∧ a ^ 2 * x < b ^ 2 := by
  have hroot : a * √x = √(a ^ 2 * x) := by
    rw [Real.sqrt_mul (sq_nonneg a), Real.sqrt_sq ha]
  rw [hroot]
  constructor
  · intro h
    have hb : 0 < b := (Real.sqrt_nonneg _).trans_lt h
    exact ⟨hb, (Real.sqrt_lt' hb).mp h⟩
  · rintro ⟨hb, h⟩
    exact (Real.sqrt_lt' hb).mpr h

/-- A passed score test makes the excess over `t` at least `z ^ 2 * t`: the excess is at most
`(1 - t) * n`. -/
private theorem excess_of_test (hn : 0 < n) (hcn : c ≤ n) (ht' : t < 1) (hshare : t * n ≤ c)
    (htest : z ^ 2 * (t * (1 - t)) * n ≤ (c - t * n) ^ 2) : z ^ 2 * t ≤ c - t * n := by
  have hle : (c - t * n) ^ 2 ≤ (c - t * n) * ((1 - t) * n) := by nlinarith
  have htn : 0 < (1 - t) * n := mul_pos (by linarith) hn
  refine le_of_mul_le_mul_right ?_ htn
  linarith

/-- Where the score test of `t` is passed, the distance is on the side of the successes. -/
private theorem distance_nonneg_iff (hn : 0 < n) (hc : 0 ≤ c) (hcn : c ≤ n) (ht : 0 < t)
    (ht' : t < 1) (htest : z ^ 2 * (t * (1 - t)) * n ≤ (c - t * n) ^ 2) :
    0 ≤ c / n - t + z * z / (2 * n) * (1 - 2 * t) ↔ t * n ≤ c := by
  have hscaled : c / n - t + z * z / (2 * n) * (1 - 2 * t) =
      (c - t * n + z ^ 2 / 2 * (1 - 2 * t)) / n := by
    field_simp
  rw [hscaled, le_div_iff₀ hn, zero_mul]
  have hz : 0 ≤ z ^ 2 := sq_nonneg z
  constructor
  · intro h
    by_contra hbelow
    rw [not_le] at hbelow
    -- the shortfall is at most `t * n`, so the test makes it at least `z ^ 2 * (1 - t)`
    have hshort : z ^ 2 * (1 - t) ≤ t * n - c := by
      have hle : (c - t * n) ^ 2 ≤ (t * n - c) * (t * n) := by nlinarith
      have htn : 0 < t * n := mul_pos ht hn
      refine le_of_mul_le_mul_right ?_ htn
      linarith
    nlinarith
  · intro h
    have hover := excess_of_test hn hcn ht' h htest
    nlinarith

/-- A rate is below the bound when the score test accepts it from below. -/
theorem le_lowerBound_iff_sq (hz : 0 ≤ z) (hn : 0 < n) (hc : 0 ≤ c) (hcn : c ≤ n) (ht : 0 < t)
    (ht' : t < 1) :
    t ≤ lowerBound z c n ↔
      t * n ≤ c ∧ z ^ 2 * (t * (1 - t)) * n ≤ (c - t * n) ^ 2 := by
  have hcut : t ≤ lowerBound z c n ↔ t ≤ score z c n := by
    rw [lowerBound, le_max_iff]
    exact or_iff_right (by linarith)
  rw [hcut, le_score_iff_margin hn, mul_sqrt_le_iff hz, ← sub_nonneg (b := z ^ 2 * _),
    margin_sq hn]
  have htest : 0 ≤ (1 + z * z / n) * ((c - t * n) ^ 2 - z ^ 2 * (t * (1 - t)) * n) / n ^ 2 ↔
      z ^ 2 * (t * (1 - t)) * n ≤ (c - t * n) ^ 2 := by
    rw [le_div_iff₀ (by positivity), zero_mul, mul_nonneg_iff_of_pos_left (denominator_pos hn),
      sub_nonneg]
  rw [htest]
  exact and_congr_left fun h => distance_nonneg_iff hn hc hcn ht ht' h

/-- The same with the root: the successes that a rate asks for. -/
theorem le_lowerBound_iff (hz : 0 ≤ z) (hn : 0 < n) (hc : 0 ≤ c) (hcn : c ≤ n) (ht : 0 < t)
    (ht' : t < 1) :
    t ≤ lowerBound z c n ↔ t * n + z * √(t * (1 - t) * n) ≤ c := by
  rw [le_lowerBound_iff_sq hz hn hc hcn ht ht', add_comm, ← le_sub_iff_add_le,
    mul_sqrt_le_iff hz, sub_nonneg, mul_assoc (z ^ 2)]

/-- A rate that passes the score test with room to spare is strictly below the bound. -/
theorem lt_lowerBound_of_sq (hz : 0 < z) (hn : 0 < n) (hcn : c ≤ n) (ht' : t < 1)
    (hshare : t * n ≤ c) (htest : z ^ 2 * (t * (1 - t)) * n < (c - t * n) ^ 2) :
    t < lowerBound z c n := by
  refine lt_of_lt_of_le ?_ (le_max_right 0 (score z c n))
  rw [lt_score_iff_margin hn, mul_sqrt_lt_iff hz.le]
  constructor
  · have hscaled : c / n - t + z * z / (2 * n) * (1 - 2 * t) =
        (c - t * n - z ^ 2 * t + z ^ 2 / 2) / n := by
      field_simp
      ring
    have hover := excess_of_test hn hcn ht' hshare htest.le
    have hz2 : 0 < z ^ 2 := pow_pos hz 2
    rw [hscaled]
    exact div_pos (by linarith) hn
  · rw [← sub_pos, margin_sq hn]
    exact div_pos (mul_pos (denominator_pos hn) (sub_pos.mpr htest)) (pow_pos hn 2)

/-! ## Order laws -/

/-- No bound reaches 1 once the quantile counts. -/
theorem lowerBound_lt_one (hz : 0 < z) (hn : 0 < n) (hcn : c ≤ n) : lowerBound z c n < 1 := by
  rw [lowerBound, max_lt_iff]
  refine ⟨one_pos, ?_⟩
  by_contra h
  rw [not_lt, le_score_iff_margin hn] at h
  have hmargin : 0 ≤ z * √((c / n * (1 - c / n) + z * z / (4 * n)) / n) :=
    mul_nonneg hz.le (Real.sqrt_nonneg _)
  have hp : c / n ≤ 1 := (div_le_one hn).mpr hcn
  have hquantile : 0 < z * z / (2 * n) := by positivity
  linarith

/-- No bound is above the rate of the trials. -/
theorem lowerBound_le_rate (hz : 0 < z) (hn : 0 < n) (hc : 0 ≤ c) (hcn : c ≤ n) :
    lowerBound z c n ≤ c / n := by
  rcases (lowerBound_nonneg z c n).eq_or_lt with hzero | hpos
  · rw [← hzero]
    exact div_nonneg hc hn.le
  · rw [le_div_iff₀ hn]
    exact ((le_lowerBound_iff_sq hz.le hn hc hcn hpos (lowerBound_lt_one hz hn hcn)).mp le_rfl).1

/-- No successes support no rate. -/
theorem lowerBound_zero (hz : 0 < z) (hn : 0 < n) : lowerBound z 0 n = 0 := by
  have hrate : lowerBound z 0 n ≤ 0 / n := lowerBound_le_rate hz hn le_rfl hn.le
  rw [zero_div] at hrate
  exact le_antisymm hrate (lowerBound_nonneg z 0 n)

/-- A bound is at most another one if every rate in reach of it is in reach of the other. -/
private theorem lowerBound_le_of {c' n' : ℝ} (hz : 0 < z) (hn : 0 < n) (hcn : c ≤ n)
    (h : ∀ t, 0 < t → t < 1 → t ≤ lowerBound z c n → t ≤ lowerBound z c' n') :
    lowerBound z c n ≤ lowerBound z c' n' := by
  rcases (lowerBound_nonneg z c n).eq_or_lt with hzero | hpos
  · rw [← hzero]
    exact lowerBound_nonneg z c' n'
  · exact h _ hpos (lowerBound_lt_one hz hn hcn) le_rfl

/-- More successes in the same trials. -/
theorem lowerBound_le_of_successes {c' : ℝ} (hz : 0 < z) (hn : 0 < n) (hc : 0 ≤ c)
    (hcc' : c ≤ c') (hcn' : c' ≤ n) : lowerBound z c n ≤ lowerBound z c' n := by
  have hcn : c ≤ n := hcc'.trans hcn'
  refine lowerBound_le_of hz hn hcn fun t ht ht' h => ?_
  rw [le_lowerBound_iff hz.le hn hc hcn ht ht'] at h
  rw [le_lowerBound_iff hz.le hn (hc.trans hcc') hcn' ht ht']
  exact h.trans hcc'

/-- The same successes in fewer trials. -/
theorem lowerBound_le_of_trials {n' : ℝ} (hz : 0 < z) (hn : 0 < n) (hc : 0 ≤ c) (hcn : c ≤ n)
    (hnn' : n ≤ n') : lowerBound z c n' ≤ lowerBound z c n := by
  have hn' : 0 < n' := hn.trans_le hnn'
  have hcn' : c ≤ n' := hcn.trans hnn'
  refine lowerBound_le_of hz hn' hcn' fun t ht ht' h => ?_
  rw [le_lowerBound_iff hz.le hn' hc hcn' ht ht'] at h
  rw [le_lowerBound_iff hz.le hn hc hcn ht ht']
  have hroot : √(t * (1 - t) * n) ≤ √(t * (1 - t) * n') :=
    Real.sqrt_le_sqrt (mul_le_mul_of_nonneg_left hnn' (mul_nonneg ht.le (by linarith)))
  have hwidth : z * √(t * (1 - t) * n) ≤ z * √(t * (1 - t) * n') :=
    mul_le_mul_of_nonneg_left hroot hz.le
  have hshare : t * n ≤ t * n' := mul_le_mul_of_nonneg_left hnn' ht.le
  linarith

/-- More trials, all of the additional ones successes. -/
theorem lowerBound_lt_of_successful_trials {k : ℝ} (hz : 0 < z) (hn : 0 < n) (hc : 0 ≤ c)
    (hcn : c ≤ n) (hk : 0 < k) : lowerBound z c n < lowerBound z (c + k) (n + k) := by
  have ht' : lowerBound z c n < 1 := lowerBound_lt_one hz hn hcn
  have hrest : 0 < k * (1 - lowerBound z c n) := mul_pos hk (by linarith)
  rcases (lowerBound_nonneg z c n).eq_or_lt with hzero | ht
  · rw [← hzero] at hrest ⊢
    refine lt_lowerBound_of_sq hz (by linarith) (by linarith) one_pos (by linarith) ?_
    have hsome : 0 < (c + k) ^ 2 := by positivity
    linarith
  · have hreach := (le_lowerBound_iff_sq hz.le hn hc hcn ht ht').mp le_rfl
    generalize lowerBound z c n = t at ht ht' hrest hreach ⊢
    obtain ⟨hshare, htest⟩ := hreach
    have hgrown : c + k - t * (n + k) = (c - t * n) + k * (1 - t) := by ring
    refine lt_lowerBound_of_sq hz (by linarith) (by linarith) ht' (by linarith) ?_
    -- the excess over `t` grows by `k * (1 - t)`, and it was at least `z ^ 2 * t` already
    have hover := excess_of_test hn hcn ht' hshare htest
    have hwider : z ^ 2 * t * (k * (1 - t)) ≤ (c - t * n) * (k * (1 - t)) :=
      mul_le_mul_of_nonneg_right hover hrest.le
    have hboth : 0 ≤ (c - t * n) * (k * (1 - t)) :=
      mul_nonneg (sub_nonneg.mpr hshare) hrest.le
    have hsquare : 0 < (k * (1 - t)) ^ 2 := pow_pos hrest 2
    rw [hgrown]
    calc z ^ 2 * (t * (1 - t)) * (n + k)
        = z ^ 2 * (t * (1 - t)) * n + z ^ 2 * t * (k * (1 - t)) := by ring
      _ ≤ (c - t * n) ^ 2 + (c - t * n) * (k * (1 - t)) := add_le_add htest hwider
      _ < (c - t * n + k * (1 - t)) ^ 2 := by linarith

/-- The same where there may be no additional trial. -/
theorem lowerBound_le_of_successful_trials {k : ℝ} (hz : 0 < z) (hn : 0 < n) (hc : 0 ≤ c)
    (hcn : c ≤ n) (hk : 0 ≤ k) : lowerBound z c n ≤ lowerBound z (c + k) (n + k) := by
  rcases hk.eq_or_lt with rfl | hk
  · rw [add_zero, add_zero]
  · exact (lowerBound_lt_of_successful_trials hz hn hc hcn hk).le

end

end Wilson
