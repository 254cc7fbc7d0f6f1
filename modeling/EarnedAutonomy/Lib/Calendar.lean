import Mathlib.Data.List.Lex
import Mathlib.Tactic.Ring

/-!
# Calendar times and their text

Times of the proleptic Gregorian calendar in UTC, from year 1 to year 9999
with microseconds, as structures whose fields are always in range.

* The order is the order of the fields, most significant first.
* `DateTime.shift` adds seconds by way of the day number of a date.  A lifetime
  that ends within the calendar would have done so from an earlier time on:
  `shift_isSome_of_le`.
* `isoformat` writes a time.  The fraction is left out when it is zero, so the
  texts of two times can differ in length; `isoformat_lt_iff` says that their
  code-point order is the order of the times all the same.
* `fromisoformat` reads the texts `isoformat` writes, with any separator,
  with or without a time, a fraction and an offset.
-/

namespace Calendar

/-! ## Dates -/

/-- Leap years of the Gregorian calendar. -/
def isLeap (year : Nat) : Bool :=
  year % 4 = 0 && (year % 100 ≠ 0 || year % 400 = 0)

/-- The length of a month. -/
def daysInMonth (year month : Nat) : Nat :=
  if month = 2 then (if isLeap year then 29 else 28)
  else if month = 4 ∨ month = 6 ∨ month = 9 ∨ month = 11 then 30
  else 31

/-- The days of a common year before a month. -/
def daysBeforeMonth (month : Nat) : Nat :=
  [0, 0, 31, 59, 90, 120, 151, 181, 212, 243, 273, 304, 334].getD month 0

/-- The fields of a date are in range. -/
def ValidDate (year month day : Nat) : Prop :=
  1 ≤ year ∧ year ≤ 9999 ∧ 1 ≤ month ∧ month ≤ 12 ∧ 1 ≤ day ∧ day ≤ daysInMonth year month

instance (year month day : Nat) : Decidable (ValidDate year month day) :=
  inferInstanceAs (Decidable (_ ∧ _))

/-- The number of a day, with January 1 of year 1 as day 1. -/
def toOrdinal (year month day : Nat) : Nat :=
  let y := year - 1
  y * 365 + y / 4 - y / 100 + y / 400 + daysBeforeMonth month +
    (if 2 < month ∧ isLeap year = true then 1 else 0) + day

/-- The month and day of the `n`-th day of a year, counted from 0. -/
def monthDay (leap : Bool) (n : Nat) : Nat × Nat :=
  let extra (month : Nat) : Nat := if 2 < month ∧ leap = true then 1 else 0
  let estimate := (n + 50) / 32
  let month :=
    if n < daysBeforeMonth estimate + extra estimate then estimate - 1 else estimate
  (month, n - (daysBeforeMonth month + extra month) + 1)

/-- The date that is `n400`, `n100`, `n4` and `n1` whole cycles of 400, 100, 4
and 1 years and `n` days after the first.  The last day of a 400-year or 4-year
cycle would be counted as a year of its own and is December 31. -/
def dateAfterCycles (n400 n100 n4 n1 n : Nat) : Nat × Nat × Nat :=
  let year := n400 * 400 + 1 + n100 * 100 + n4 * 4 + n1
  if n1 = 4 ∨ n100 = 4 then (year - 1, 12, 31)
  else (year, monthDay (n1 = 3 && (n4 ≠ 24 || n100 = 3)) n)

/-- The date of a day number. -/
def ofOrdinal (ordinal : Nat) : Nat × Nat × Nat :=
  let n := ordinal - 1
  dateAfterCycles (n / 146097) (n % 146097 / 36524) (n % 146097 % 36524 / 1461)
    (n % 146097 % 36524 % 1461 / 365) (n % 146097 % 36524 % 1461 % 365)

/-- The day number of December 31, 9999. -/
def maxOrdinal : Nat := 3652059

set_option maxRecDepth 4000 in
private theorem monthDay_bounds :
    ∀ leap : Bool, ∀ n < 365,
      1 ≤ (monthDay leap n).1 ∧ (monthDay leap n).1 ≤ 12 ∧ 1 ≤ (monthDay leap n).2 ∧
        (monthDay leap n).2 ≤ daysInMonth (if leap then 4 else 1) (monthDay leap n).1 := by
  decide

private theorem daysInMonth_of_isLeap (year month : Nat) :
    daysInMonth year month = daysInMonth (if isLeap year then 4 else 1) month := by
  have h4 : isLeap 4 = true := by decide
  have h1 : isLeap 1 = false := by decide
  cases h : isLeap year <;> simp [daysInMonth, h, h4, h1]

/-- The cycle counts say whether the year that was found is a leap year. -/
private theorem isLeap_after_cycles (n400 : Nat) {n100 n4 n1 : Nat} (h100 : n100 < 4) (h4 : n4 ≤ 24)
    (h1 : n1 < 4) :
    isLeap (n400 * 400 + 1 + n100 * 100 + n4 * 4 + n1) =
      (n1 = 3 && (n4 ≠ 24 || n100 = 3)) := by
  rw [Bool.eq_iff_iff]
  simp only [isLeap, Bool.and_eq_true, Bool.or_eq_true, decide_eq_true_eq, ne_eq]
  omega

private theorem validDate_dateAfterCycles {n400 n100 n4 n1 n : Nat} (h100 : n100 ≤ 4)
    (h4 : n4 ≤ 24) (h1 : n1 ≤ 4) (hn : n < 365)
    (hyear : n400 * 400 + n100 * 100 + n4 * 4 + n1 ≤ 9999)
    (hlast : n100 < 4 → n1 < 4 → n400 * 400 + n100 * 100 + n4 * 4 + n1 ≤ 9998) :
    ValidDate (dateAfterCycles n400 n100 n4 n1 n).1 (dateAfterCycles n400 n100 n4 n1 n).2.1
      (dateAfterCycles n400 n100 n4 n1 n).2.2 := by
  unfold dateAfterCycles
  by_cases hcycle : n1 = 4 ∨ n100 = 4
  · simp only [hcycle, if_true]
    refine ⟨by omega, by omega, by omega, by omega, by omega, ?_⟩
    simp [daysInMonth]
  · simp only [hcycle, if_false]
    have h100' : n100 < 4 := by omega
    have h1' : n1 < 4 := by omega
    have hlt := hlast h100' h1'
    have hleap := isLeap_after_cycles n400 h100' h4 h1'
    have hyears : n400 * 400 + 1 + n100 * 100 + n4 * 4 + n1 =
        n400 * 400 + n100 * 100 + n4 * 4 + n1 + 1 := by omega
    have hmax : n400 * 400 + 1 + n100 * 100 + n4 * 4 + n1 ≤ 9999 := by
      rw [hyears]
      exact Nat.succ_le_succ hlt
    have hmin : 1 ≤ n400 * 400 + 1 + n100 * 100 + n4 * 4 + n1 := by
      rw [hyears]
      exact Nat.le_add_left 1 _
    obtain ⟨hm1, hm2, hd1, hd2⟩ := monthDay_bounds (n1 = 3 && (n4 ≠ 24 || n100 = 3)) n hn
    rw [← hleap, ← daysInMonth_of_isLeap, hleap] at hd2
    exact ⟨hmin, hmax, hm1, hm2, hd1, hd2⟩

theorem validDate_ofOrdinal {ordinal : Nat} (h1 : 1 ≤ ordinal) (h2 : ordinal ≤ maxOrdinal) :
    ValidDate (ofOrdinal ordinal).1 (ofOrdinal ordinal).2.1 (ofOrdinal ordinal).2.2 := by
  simp only [maxOrdinal] at h2
  exact validDate_dateAfterCycles (by omega) (by omega) (by omega) (by omega) (by omega)
    (by omega)

/-! ## The order of the days -/

/-- The days before January 1 of the year after `n` years. -/
private def daysBeforeYear (n : Nat) : Nat := n * 365 + n / 4 - n / 100 + n / 400

/-- The day number of a date within its year. -/
private def dayOfYear (year month day : Nat) : Nat :=
  daysBeforeMonth month + (if 2 < month ∧ isLeap year = true then 1 else 0) + day

private theorem toOrdinal_eq (year month day : Nat) :
    toOrdinal year month day = daysBeforeYear (year - 1) + dayOfYear year month day := by
  simp only [toOrdinal, daysBeforeYear, dayOfYear, Nat.add_assoc]

private theorem succ_div (n k : Nat) :
    (n + 1) / k = n / k + if (n + 1) % k = 0 then 1 else 0 := by
  rw [Nat.succ_div]
  simp only [Nat.dvd_iff_mod_eq_zero]

private theorem daysBeforeYear_succ (n : Nat) :
    daysBeforeYear (n + 1) =
      daysBeforeYear n + 365 + if isLeap (n + 1) = true then 1 else 0 := by
  have h400 : (n + 1) % 400 = 0 → (n + 1) % 100 = 0 := by omega
  have h100 : (n + 1) % 100 = 0 → (n + 1) % 4 = 0 := by omega
  have hle : n / 100 ≤ n / 4 := Nat.div_le_div_left (by omega) (by omega)
  unfold daysBeforeYear
  rw [succ_div n 4, succ_div n 100, succ_div n 400]
  simp only [isLeap, Bool.and_eq_true, Bool.or_eq_true, decide_eq_true_eq, ne_eq]
  generalize n / 4 = a at hle ⊢
  generalize n / 100 = b at hle ⊢
  by_cases h4 : (n + 1) % 4 = 0
  · by_cases h1 : (n + 1) % 100 = 0
    · by_cases h2 : (n + 1) % 400 = 0
      · simp only [h4, h1, h2, if_true, not_true, or_true, and_true]
        omega
      · simp only [h4, h1, h2, if_true, if_false, not_true, or_false, and_false]
        omega
    · have h2 := mt h400 h1
      simp only [h4, h1, h2, if_true, if_false, not_false_eq_true, true_or, and_true]
      omega
  · have h1 := mt h100 h4
    have h2 := mt h400 h1
    simp only [h4, h1, h2, if_false, false_and]
    omega

private theorem daysBeforeYear_mono : Monotone daysBeforeYear :=
  monotone_nat_of_le_succ fun n => by
    rw [daysBeforeYear_succ]
    omega

/-- The months of a year follow each other, and the last one ends with the year. -/
private theorem daysBeforeMonth_bounds :
    ∀ leap : Bool, ∀ m < 13, 1 ≤ m →
      (∀ m' < 13, m < m' →
        daysBeforeMonth m + (if 2 < m ∧ leap = true then 1 else 0) +
            daysInMonth (if leap then 4 else 1) m ≤
          daysBeforeMonth m' + if 2 < m' ∧ leap = true then 1 else 0) ∧
      daysBeforeMonth m + (if 2 < m ∧ leap = true then 1 else 0) +
          daysInMonth (if leap then 4 else 1) m ≤ 365 + if leap = true then 1 else 0 := by
  decide

/-- A later date has a greater number. -/
theorem toOrdinal_lt {y m d y' m' d' : Nat} (h : ValidDate y m d) (h' : ValidDate y' m' d')
    (hlt : y < y' ∨ y = y' ∧ (m < m' ∨ m = m' ∧ d < d')) :
    toOrdinal y m d < toOrdinal y' m' d' := by
  obtain ⟨hy, _, hm1, hm2, _, hd⟩ := h
  obtain ⟨_, _, _, hm2', hd1', _⟩ := h'
  obtain ⟨hmonths, hlast⟩ := daysBeforeMonth_bounds (isLeap y) m (by omega) hm1
  rw [← daysInMonth_of_isLeap] at hmonths hlast
  rw [toOrdinal_eq, toOrdinal_eq]
  rcases hlt with hyear | ⟨rfl, hmonth | ⟨rfl, hday⟩⟩
  · -- the year of the earlier date is over
    have hend : daysBeforeYear (y - 1 + 1) ≤ daysBeforeYear (y' - 1) :=
      daysBeforeYear_mono (by omega)
    rw [daysBeforeYear_succ, Nat.sub_add_cancel hy] at hend
    unfold dayOfYear
    omega
  · have := hmonths m' (by omega) hmonth
    unfold dayOfYear
    omega
  · unfold dayOfYear
    omega

/-! ## Times -/

/-- A time in UTC. -/
structure DateTime where
  year : Nat
  month : Nat
  day : Nat
  hour : Nat
  minute : Nat
  second : Nat
  microsecond : Nat
  validDate : ValidDate year month day
  validTime : hour < 24 ∧ minute < 60 ∧ second < 60 ∧ microsecond < 1000000
  deriving DecidableEq

namespace DateTime

/-- The fields, most significant first. -/
def key (d : DateTime) : List Nat :=
  [d.year, d.month, d.day, d.hour, d.minute, d.second, d.microsecond]

theorem key_injective : Function.Injective key := by
  rintro ⟨y, mo, d, h, mi, s, us, _, _⟩ ⟨y', mo', d', h', mi', s', us', _, _⟩ heq
  simp only [key, List.cons.injEq, and_true] at heq
  obtain ⟨rfl, rfl, rfl, rfl, rfl, rfl, rfl⟩ := heq
  rfl

/-- The earlier time is the one with the smaller fields. -/
instance : LinearOrder DateTime := LinearOrder.lift' key key_injective

theorem lt_iff_key (a b : DateTime) : a < b ↔ a.key < b.key := Iff.rfl

/-- Microseconds since the start of day 0. -/
def micros (d : DateTime) : Int :=
  ((toOrdinal d.year d.month d.day * 86400 + d.hour * 3600 + d.minute * 60 + d.second : Nat)
    : Int) * 1000000 + d.microsecond

/-- The time `seconds` later, unless that is before year 1 or after year 9999. -/
def shift (d : DateTime) (seconds : Int) : Option DateTime :=
  let total : Int := ((toOrdinal d.year d.month d.day * 86400 +
    d.hour * 3600 + d.minute * 60 + d.second : Nat) : Int) + seconds
  let ordinal := (total / 86400).toNat
  let rest := (total % 86400).toNat
  if h : 0 < total / 86400 ∧ total / 86400 ≤ maxOrdinal then
    some {
      year := (ofOrdinal ordinal).1
      month := (ofOrdinal ordinal).2.1
      day := (ofOrdinal ordinal).2.2
      hour := rest / 3600
      minute := rest % 3600 / 60
      second := rest % 60
      microsecond := d.microsecond
      validDate := validDate_ofOrdinal (by omega) (by omega)
      validTime := ⟨by omega, by omega, by omega, d.validTime.2.2.2⟩ }
  else none

/-- The seconds since the start of day 0. -/
private def seconds (d : DateTime) : Nat :=
  toOrdinal d.year d.month d.day * 86400 + d.hour * 3600 + d.minute * 60 + d.second

private theorem seconds_mono : Monotone seconds := by
  intro a b hle
  obtain ⟨ha, hb, hc, hd⟩ := a.validTime
  obtain ⟨ha', hb', hc', hd'⟩ := b.validTime
  rcases hle.lt_or_eq with hlt | rfl
  · rw [lt_iff_key] at hlt
    simp only [key, List.cons_lt_cons_iff, List.not_lt_nil, and_false, or_false] at hlt
    unfold seconds
    by_cases hdate : a.year < b.year ∨ a.year = b.year ∧
        (a.month < b.month ∨ a.month = b.month ∧ a.day < b.day)
    · have := toOrdinal_lt a.validDate b.validDate hdate
      omega
    · have hsame : a.year = b.year ∧ a.month = b.month ∧ a.day = b.day := by omega
      rw [hsame.1, hsame.2.1, hsame.2.2]
      omega
  · exact le_refl _

private theorem shift_isSome_iff (d : DateTime) (n : Int) :
    (d.shift n).isSome = true ↔
      0 < ((seconds d : Nat) + n) / 86400 ∧ ((seconds d : Nat) + n) / 86400 ≤ maxOrdinal := by
  change Option.isSome (dite _ _ _) = true ↔ _
  split
  · rename_i h
    exact iff_of_true rfl h
  · rename_i h
    exact iff_of_false (fun hnone => by cases hnone) h

/-- What is in the calendar after some time from now would be from an earlier time on. -/
theorem shift_isSome_of_le {a b : DateTime} {n : Int} (hle : a ≤ b) (hn : 0 ≤ n)
    (h : (b.shift n).isSome = true) : (a.shift n).isSome = true := by
  have hseconds : seconds a ≤ seconds b := seconds_mono hle
  have hstart : 86400 ≤ seconds a := by
    have hday := a.validDate.2.2.2.2.1
    have hordinal := toOrdinal_eq a.year a.month a.day
    unfold dayOfYear at hordinal
    unfold seconds
    omega
  rw [shift_isSome_iff] at h ⊢
  omega

end DateTime

/-! ## Fixed-width decimals -/

/-- The character of a decimal digit. -/
def digitChar (n : Nat) : Char := Char.ofNat (48 + n)

/-- A number with leading zeros to the given width. -/
def pad : Nat → Nat → List Char
  | 0, _ => []
  | w + 1, n => digitChar (n / 10 ^ w) :: pad w (n % 10 ^ w)

private theorem digitChar_lt_iff :
    ∀ m < 10, ∀ n < 10, (digitChar m < digitChar n ↔ m < n) := by decide

private theorem digitChar_eq_iff :
    ∀ m < 10, ∀ n < 10, (digitChar m = digitChar n ↔ m = n) := by decide

private theorem div_pow_lt {w n : Nat} (h : n < 10 ^ (w + 1)) : n / 10 ^ w < 10 := by
  rw [Nat.div_lt_iff_lt_mul (Nat.pow_pos (by omega))]
  rw [Nat.pow_succ] at h
  omega

private theorem lt_iff_div_mod (k m n : Nat) (hk : 0 < k) :
    m < n ↔ m / k < n / k ∨ m / k = n / k ∧ m % k < n % k := by
  have hm := Nat.div_add_mod m k
  have hn := Nat.div_add_mod n k
  have hmk := Nat.mod_lt m hk
  have hnk := Nat.mod_lt n hk
  rcases Nat.lt_trichotomy (m / k) (n / k) with h | h | h
  · have := Nat.mul_le_mul_left k (Nat.succ_le_of_lt h)
    rw [Nat.mul_succ] at this
    exact iff_of_true (by omega) (Or.inl h)
  · rw [h] at hm
    constructor
    · intro hlt
      exact Or.inr ⟨h, by omega⟩
    · rintro (hlt | ⟨_, hlt⟩) <;> omega
  · have := Nat.mul_le_mul_left k (Nat.succ_le_of_lt h)
    rw [Nat.mul_succ] at this
    exact iff_of_false (by omega) (by omega)

private theorem eq_iff_div_mod (k m n : Nat) :
    m = n ↔ m / k = n / k ∧ m % k = n % k := by
  refine ⟨by rintro rfl; exact ⟨rfl, rfl⟩, fun ⟨h1, h2⟩ => ?_⟩
  rw [← Nat.div_add_mod m k, ← Nat.div_add_mod n k, h1, h2]

/-- Texts that begin with numbers of one width compare as the numbers do, and
by what follows when these are equal. -/
theorem pad_append_lt_iff (w : Nat) {m n : Nat} (r r' : List Char) (hm : m < 10 ^ w)
    (hn : n < 10 ^ w) : pad w m ++ r < pad w n ++ r' ↔ m < n ∨ m = n ∧ r < r' := by
  induction w generalizing m n with
  | zero =>
    have h0 : m = 0 ∧ n = 0 := by simp only [Nat.pow_zero] at hm hn; omega
    simp [pad, h0.1, h0.2]
  | succ w ih =>
    have hk : 0 < 10 ^ w := Nat.pow_pos (by omega)
    simp only [pad, List.cons_append, List.cons_lt_cons_iff,
      digitChar_lt_iff _ (div_pow_lt hm) _ (div_pow_lt hn),
      digitChar_eq_iff _ (div_pow_lt hm) _ (div_pow_lt hn),
      ih (Nat.mod_lt m hk) (Nat.mod_lt n hk)]
    rw [lt_iff_div_mod (10 ^ w) m n hk, eq_iff_div_mod (10 ^ w) m n]
    tauto

/-! ## Writing a time -/

/-- What follows the seconds: the fraction unless it is zero, and the offset. -/
def fractionText (microsecond : Nat) : List Char :=
  if microsecond = 0 then ['+', '0', '0', ':', '0', '0']
  else '.' :: (pad 6 microsecond ++ ['+', '0', '0', ':', '0', '0'])

/-- `YYYY-MM-DDTHH:MM:SS[.ffffff]+00:00`, as a list of characters. -/
def isoChars (d : DateTime) : List Char :=
  pad 4 d.year ++ '-' :: (pad 2 d.month ++ '-' :: (pad 2 d.day ++ 'T' ::
    (pad 2 d.hour ++ ':' :: (pad 2 d.minute ++ ':' :: (pad 2 d.second ++
      fractionText d.microsecond)))))

/-- The text of a time. -/
def isoformat (d : DateTime) : String := String.ofList (isoChars d)

private theorem fractionText_lt_iff {m n : Nat} (hm : m < 1000000) (hn : n < 1000000) :
    fractionText m < fractionText n ↔ m < n := by
  -- the sign of the offset sorts before the point of a fraction
  have hplus : ('+' : Char) < '.' := by decide
  have hpoint : ¬ ('.' : Char) < '+' := by decide
  unfold fractionText
  split <;> split
  · rename_i h0 h0'
    subst h0 h0'
    exact iff_of_false (by decide) (by decide)
  · rename_i h0 h0'
    exact iff_of_true (List.cons_lt_cons_iff.mpr (Or.inl hplus)) (by omega)
  · rename_i h0 h0'
    refine iff_of_false (fun h => ?_) (by omega)
    rcases List.cons_lt_cons_iff.mp h with h | ⟨h, _⟩
    · exact hpoint h
    · exact absurd h (by decide)
  · have hw : (10 : Nat) ^ 6 = 1000000 := by decide
    rw [List.cons_lt_cons_iff, pad_append_lt_iff 6 _ _ (by omega) (by omega)]
    have hirr : ¬ ('.' : Char) < '.' := by decide
    have hsuffix : ¬ (['+', '0', '0', ':', '0', '0'] : List Char) <
        ['+', '0', '0', ':', '0', '0'] := by decide
    simp only [hirr, hsuffix, false_or, true_and, and_false, or_false]

private theorem daysInMonth_le (year month : Nat) : daysInMonth year month ≤ 31 := by
  unfold daysInMonth
  repeat' split
  all_goals omega

/-- The fields of a time fit the widths they are written with. -/
private theorem field_bounds (d : DateTime) :
    d.year < 10 ^ 4 ∧ d.month < 10 ^ 2 ∧ d.day < 10 ^ 2 ∧ d.hour < 10 ^ 2 ∧
      d.minute < 10 ^ 2 ∧ d.second < 10 ^ 2 ∧ d.microsecond < 1000000 := by
  obtain ⟨_, hy, _, hmo, _, hd⟩ := d.validDate
  obtain ⟨hh, hmi, hs, hus⟩ := d.validTime
  have h31 := daysInMonth_le d.year d.month
  omega

/-- The code-point order of two texts is the order of their times. -/
theorem isoformat_lt_iff (a b : DateTime) : isoformat a < isoformat b ↔ a < b := by
  obtain ⟨hy, hmo, hd, hh, hmi, hs, hus⟩ := field_bounds a
  obtain ⟨hy', hmo', hd', hh', hmi', hs', hus'⟩ := field_bounds b
  have hdash : ¬ ('-' : Char) < '-' := by decide
  have hT : ¬ ('T' : Char) < 'T' := by decide
  have hcolon : ¬ (':' : Char) < ':' := by decide
  change (isoformat a).toList < (isoformat b).toList ↔ _
  rw [isoformat, isoformat, String.toList_ofList, String.toList_ofList, DateTime.lt_iff_key]
  simp only [isoChars, DateTime.key, List.cons_lt_cons_iff, hdash, hT, hcolon, false_or,
    true_and, pad_append_lt_iff 4 _ _ hy hy', pad_append_lt_iff 2 _ _ hmo hmo',
    pad_append_lt_iff 2 _ _ hd hd', pad_append_lt_iff 2 _ _ hh hh',
    pad_append_lt_iff 2 _ _ hmi hmi', pad_append_lt_iff 2 _ _ hs hs',
    fractionText_lt_iff hus hus', List.not_lt_nil, and_false, or_false]

/-! ## Reading a time -/

/-- Read a number of exactly `w` digits. -/
def readDigits : Nat → Nat → List Char → Option (Nat × List Char)
  | 0, acc, r => some (acc, r)
  | _ + 1, _, [] => none
  | w + 1, acc, c :: r =>
      if c.isDigit then readDigits w (acc * 10 + (c.toNat - 48)) r else none

/-- Read one expected character. -/
def readChar (expected : Char) : List Char → Option (List Char)
  | c :: r => if c = expected then some r else none
  | [] => none

/-- Read the fraction after the seconds: nothing, or a point and three or six
digits. -/
def readFraction : List Char → Option Nat
  | [] => some 0
  | '.' :: r =>
      if r.length = 6 then (readDigits 6 0 r).map Prod.fst
      else if r.length = 3 then (readDigits 3 0 r).map fun p => p.1 * 1000
      else none
  | _ => none

/-- Read `HH[:MM[:SS[.fff[fff]]]]`. -/
def readClock (r : List Char) : Option (Nat × Nat × Nat × Nat) := do
  let (hour, r) ← readDigits 2 0 r
  if r = [] then return (hour, 0, 0, 0)
  let (minute, r) ← readDigits 2 0 (← readChar ':' r)
  if r = [] then return (hour, minute, 0, 0)
  let (second, r) ← readDigits 2 0 (← readChar ':' r)
  return (hour, minute, second, ← readFraction r)

/-- Read the offset after its sign, in microseconds. -/
def readOffset (sign : Char) (r : List Char) : Option Int := do
  guard (r.length = 5 ∨ r.length = 8 ∨ r.length = 15)
  let (hour, minute, second, us) ← readClock r
  let offset := (hour * 3600 + minute * 60 + second) * 1000000 + us
  guard (offset < 86400 * 1000000)
  return if sign = '-' then -(offset : Int) else offset

/-- What a text says: the fields, and the offset from UTC if it names one. -/
structure Stamp where
  time : DateTime
  offset : Option Int
  deriving DecidableEq

/-- The fields as a time, if they are in range. -/
def mkStamp (year month day : Nat) (clock : Nat × Nat × Nat × Nat) (offset : Option Int) :
    Option Stamp :=
  if hd : ValidDate year month day then
    if ht : clock.1 < 24 ∧ clock.2.1 < 60 ∧ clock.2.2.1 < 60 ∧ clock.2.2.2 < 1000000 then
      some ⟨⟨year, month, day, clock.1, clock.2.1, clock.2.2.1, clock.2.2.2, hd, ht⟩, offset⟩
    else none
  else none

/-- A character that is not the sign of an offset. -/
def isClockChar (c : Char) : Bool := c ≠ '+' && c ≠ '-'

/-- Read `YYYY-MM-DD[*HH[:MM[:SS[.fff[fff]]]][+HH:MM[:SS[.ffffff]]]]`, where
`*` is any character. -/
def readStamp (r : List Char) : Option Stamp := do
  let (year, r) ← readDigits 4 0 r
  let (month, r) ← readDigits 2 0 (← readChar '-' r)
  let (day, r) ← readDigits 2 0 (← readChar '-' r)
  match r with
  | [] => mkStamp year month day (0, 0, 0, 0) none
  | _ :: r =>
      let clock ← readClock (r.takeWhile isClockChar)
      match r.dropWhile isClockChar with
      | [] => mkStamp year month day clock none
      | sign :: r => mkStamp year month day clock (some (← readOffset sign r))

/-- Read a time. -/
def fromisoformat (text : String) : Option Stamp := readStamp text.toList

private theorem isDigit_digitChar : ∀ n < 10, (digitChar n).isDigit = true := by decide

private theorem toNat_digitChar : ∀ n < 10, (digitChar n).toNat - 48 = n := by decide

private theorem isClockChar_digitChar : ∀ n < 10, isClockChar (digitChar n) = true := by decide

theorem length_pad (w n : Nat) : (pad w n).length = w := by
  induction w generalizing n with
  | zero => rfl
  | succ w ih => simp [pad, ih]

private theorem readDigits_pad_from (w acc : Nat) {n : Nat} (r : List Char) (hn : n < 10 ^ w) :
    readDigits w acc (pad w n ++ r) = some (acc * 10 ^ w + n, r) := by
  induction w generalizing acc n with
  | zero =>
    have h0 : n = 0 := by simp only [Nat.pow_zero] at hn; omega
    simp [readDigits, pad, h0]
  | succ w ih =>
    have hk : 0 < 10 ^ w := Nat.pow_pos (by omega)
    have hdigit := div_pow_lt hn
    simp only [pad, List.cons_append, readDigits, isDigit_digitChar _ hdigit, if_true,
      toNat_digitChar _ hdigit, ih _ (Nat.mod_lt n hk), Option.some.injEq, Prod.mk.injEq,
      and_true]
    have := Nat.div_add_mod n (10 ^ w)
    calc (acc * 10 + n / 10 ^ w) * 10 ^ w + n % 10 ^ w
        = acc * 10 ^ (w + 1) + (10 ^ w * (n / 10 ^ w) + n % 10 ^ w) := by ring
      _ = acc * 10 ^ (w + 1) + n := by rw [this]

/-- A padded number is read back. -/
theorem readDigits_pad (w : Nat) {n : Nat} (r : List Char) (hn : n < 10 ^ w) :
    readDigits w 0 (pad w n ++ r) = some (n, r) := by
  rw [readDigits_pad_from w 0 r hn]
  simp

theorem isClockChar_of_mem_pad {w n : Nat} (hn : n < 10 ^ w) {c : Char} (h : c ∈ pad w n) :
    isClockChar c = true := by
  induction w generalizing n with
  | zero => simp [pad] at h
  | succ w ih =>
    rcases List.mem_cons.mp h with rfl | h
    · exact isClockChar_digitChar _ (div_pow_lt hn)
    · exact ih (Nat.mod_lt n (Nat.pow_pos (by omega))) h

/-- The clock part of a text, without the offset. -/
private def clockChars (d : DateTime) : List Char :=
  pad 2 d.hour ++ ':' :: (pad 2 d.minute ++ ':' :: (pad 2 d.second ++
    (if d.microsecond = 0 then [] else '.' :: pad 6 d.microsecond)))

private theorem isClockChar_of_mem_clockChars (d : DateTime) {c : Char}
    (h : c ∈ clockChars d) : isClockChar c = true := by
  obtain ⟨_, _, _, hh, hmi, hs, hus⟩ := field_bounds d
  have hus' : d.microsecond < 10 ^ 6 := by omega
  simp only [clockChars, List.mem_append, List.mem_cons] at h
  rcases h with h | rfl | h | rfl | h | h
  · exact isClockChar_of_mem_pad hh h
  · decide
  · exact isClockChar_of_mem_pad hmi h
  · decide
  · exact isClockChar_of_mem_pad hs h
  · split at h
    · cases h
    · rcases List.mem_cons.mp h with rfl | h
      · decide
      · exact isClockChar_of_mem_pad hus' h

private theorem clock_append_offset (d : DateTime) :
    pad 2 d.hour ++ ':' :: (pad 2 d.minute ++ ':' :: (pad 2 d.second ++
      fractionText d.microsecond)) = clockChars d ++ ['+', '0', '0', ':', '0', '0'] := by
  unfold clockChars fractionText
  split <;> simp

private theorem readClock_clockChars (d : DateTime) :
    readClock (clockChars d) = some (d.hour, d.minute, d.second, d.microsecond) := by
  obtain ⟨_, _, _, hh, hmi, hs, hus⟩ := field_bounds d
  have hus' : d.microsecond < 10 ^ 6 := by omega
  unfold readClock clockChars
  rw [readDigits_pad 2 _ hh]
  simp only [Option.bind_eq_bind, Option.bind_some, reduceCtorEq, if_false, readChar, if_true,
    readDigits_pad 2 _ hmi, readDigits_pad 2 _ hs]
  split
  · rename_i h0
    simp [readFraction, h0]
  · have hread := readDigits_pad 6 [] hus'
    rw [List.append_nil] at hread
    simp [readFraction, length_pad, hread]

/-- Reading undoes writing, with the offset of UTC. -/
theorem fromisoformat_isoformat (d : DateTime) :
    fromisoformat (isoformat d) = some ⟨d, some 0⟩ := by
  obtain ⟨hy, hmo, hd, _⟩ := field_bounds d
  have htake : (clockChars d ++ ['+', '0', '0', ':', '0', '0']).takeWhile isClockChar =
      clockChars d := by
    rw [List.takeWhile_append_of_pos fun c hc => isClockChar_of_mem_clockChars d hc]
    simp [isClockChar]
  have hdrop : (clockChars d ++ ['+', '0', '0', ':', '0', '0']).dropWhile isClockChar =
      ['+', '0', '0', ':', '0', '0'] := by
    rw [List.dropWhile_append_of_pos fun c hc => isClockChar_of_mem_clockChars d hc]
    simp [isClockChar]
  have hoffset : readOffset '+' ['0', '0', ':', '0', '0'] = some 0 := by decide
  unfold fromisoformat isoformat readStamp isoChars
  rw [String.toList_ofList, readDigits_pad 4 _ hy]
  simp only [Option.bind_eq_bind, Option.bind_some, readChar, if_true, readDigits_pad 2 _ hmo,
    readDigits_pad 2 _ hd, clock_append_offset, htake, hdrop, readClock_clockChars, hoffset]
  simp [mkStamp, d.validDate, d.validTime]

end Calendar
