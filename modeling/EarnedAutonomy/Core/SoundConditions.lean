import EarnedAutonomy.Core.Capability
import EarnedAutonomy.Core.Policy

/-!
# What the conditions enforce

A rule and a token carry conditions, and both compare them with the values of a context in
the same way.  `conditions_are_sound_iff` says when an accepted context meets them.

The comparison looks for a reason to refuse.  What it lets through without meeting an
expectation is listed by `SlipsThrough`: a missing key that is read as `None`, a `dict`
without bounds, and a value that is unordered with its bound, which for numbers means a
`nan` (`unordered_iff_nan`).
-/

namespace EarnedAutonomy

open OrderedDict PyVal

/-! ## Expectations -/

/-- The bound that a `dict` gives under a key; `None` gives none. -/
def givenBound (bounds : List (PyKey × PyVal)) (key : PyKey) : Option PyVal :=
  match PyVal.lookup bounds key with
  | some .none => Option.none
  | found => found

/-- The value meets the expectation: it is within the bounds, of which there is one, or among
the values that are listed, or equal. -/
def Meets (expected actual : PyVal) : Prop :=
  match expected with
  | .dict bounds =>
      (givenBound bounds "min" ≠ Option.none ∨ givenBound bounds "max" ≠ Option.none) ∧
        (∀ m ∈ givenBound bounds "min", m.le actual = .ok true) ∧
        ∀ m ∈ givenBound bounds "max", actual.le m = .ok true
  | .list allowed => isIn actual allowed = true
  | expected => actual.eq expected = true

/-- Every key of the conditions has a value in the context, and it meets the expectation. -/
def Satisfied (conditions values : Mapping) : Prop :=
  ∀ c ∈ conditions, ∃ v, Dict.get? values c.1 = some v ∧ Meets c.2 v

/-- The value shows that the expectation is not met: it lies outside a bound or cannot be
compared with it, or it is not among the values listed, or it differs. -/
def Missed (expected actual : PyVal) : Prop :=
  match expected with
  | .dict bounds =>
      (∃ m ∈ givenBound bounds "min", actual = .none ∨ actual.lt m ≠ .ok false) ∨
        ∃ m ∈ givenBound bounds "max", actual = .none ∨ m.lt actual ≠ .ok false
  | .list allowed => isIn actual allowed = false
  | expected => actual.eq expected = false

/-- Two values of which neither is below the other or equal to it. -/
def Unordered (below above : PyVal) : Prop :=
  above.lt below = .ok false ∧ below.le above ≠ .ok true

/-- What a context has under a key shows nothing, and yet does not meet the expectation: the
`dict` has no bounds or one that is unordered with the value, or the key is missing where
`None` is listed or expected. -/
def SlipsThrough (expected : PyVal) (found : Option PyVal) : Prop :=
  match expected with
  | .dict bounds =>
      (givenBound bounds "min" = Option.none ∧ givenBound bounds "max" = Option.none) ∨
        ∃ v ∈ found, (∃ m ∈ givenBound bounds "min", Unordered m v) ∨
          ∃ m ∈ givenBound bounds "max", Unordered v m
  | .list allowed => found = Option.none ∧ isIn .none allowed = true
  | expected => found = Option.none ∧ expected = .none

/-! ## Unordered numbers -/

/-- Not a number. -/
def PyFloat.isNan : PyFloat → Bool
  | .nan _ => true
  | _ => false

/-- Two floats are in order unless one of them is a `nan`. -/
theorem PyFloat.le_eq_not_lt {x y : PyFloat} (hx : x.isNan = false) (hy : y.isNan = false) :
    x.le y = !y.lt x := by
  have hfinite : ∀ d d' : Dyadic, (decide (d < d') || decide (d = d')) = !decide (d' < d) := by
    intro d d'
    rw [Bool.eq_iff_iff, Bool.or_eq_true, decide_eq_true_iff, decide_eq_true_iff,
      Bool.not_eq_true', decide_eq_false_iff_not, Dyadic.not_le]
    constructor
    · rintro (hlt | rfl)
      · exact (Dyadic.le_total d d').resolve_right (Dyadic.not_lt.mpr hlt)
      · exact Dyadic.le_refl d
    · intro hle
      by_cases hlt : d < d'
      · exact Or.inl hlt
      · exact Or.inr (Dyadic.le_antisymm hle (Dyadic.not_le.mp hlt))
  cases x <;> cases y <;> first
    | exact absurd hx (by decide : ¬ (true = false))
    | exact absurd hy (by decide : ¬ (true = false))
    | exact hfinite _ _
    | rfl

/-- A float is unordered with another one if one of them is a `nan`. -/
theorem PyFloat.unordered_of_nan {x y : PyFloat} (h : x.isNan = true ∨ y.isNan = true) :
    y.lt x = false ∧ x.le y = false := by
  cases x <;> cases y <;> first
    | exact ⟨rfl, rfl⟩
    | simp [PyFloat.isNan] at h

section

variable {a b : PyVal} {x y : PyFloat}

/-- Numbers of any type compare as floats. -/
theorem lt_of_number (ha : a.number? = some x) (hb : b.number? = some y) :
    a.lt b = .ok (x.lt y) := by
  cases a <;> cases b <;> simp_all [PyVal.lt, PyVal.number?]

theorem le_of_number (ha : a.number? = some x) (hb : b.number? = some y) :
    a.le b = .ok (x.le y) := by
  cases a <;> cases b <;> simp_all [PyVal.le, PyVal.number?]

/-- Two numbers are unordered exactly when one of them is a `nan`. -/
theorem unordered_iff_nan (ha : a.number? = some x) (hb : b.number? = some y) :
    Unordered a b ↔ x.isNan = true ∨ y.isNan = true := by
  rw [Unordered, lt_of_number hb ha, le_of_number ha hb]
  simp only [Except.ok.injEq, ne_eq, Bool.not_eq_true]
  constructor
  · rintro ⟨hnotlt, hnotle⟩
    by_contra hordered
    rw [not_or, Bool.not_eq_true, Bool.not_eq_true] at hordered
    rw [PyFloat.le_eq_not_lt hordered.1 hordered.2, hnotlt] at hnotle
    cases hnotle
  · exact PyFloat.unordered_of_nan

end

/-! ## The comparison -/

private theorem tooSmall_eq_false_iff {bounds : List (PyKey × PyVal)} {key : PyKey}
    {actual : PyVal} : tooSmall (boundOf bounds key) actual = .ok false ↔
      ∀ m ∈ givenBound bounds key, actual ≠ .none ∧ actual.lt m = .ok false := by
  unfold givenBound boundOf
  cases hfound : PyVal.lookup bounds key with
  | none => simp [tooSmall]
  | some m => cases m <;> cases actual <;> simp [tooSmall]

private theorem tooLarge_eq_false_iff {bounds : List (PyKey × PyVal)} {key : PyKey}
    {actual : PyVal} : tooLarge (boundOf bounds key) actual = .ok false ↔
      ∀ m ∈ givenBound bounds key, actual ≠ .none ∧ m.lt actual = .ok false := by
  unfold givenBound boundOf
  cases hfound : PyVal.lookup bounds key with
  | none => simp [tooLarge]
  | some m => cases m <;> cases actual <;> simp [tooLarge]

/-- Two tests that both come to nothing. -/
private theorem two_tests {x y : Except PyError Bool} {f g : ConditionFailure} :
    (do
      if ← x then return some f
      if ← y then return some g
      return Option.none : Except PyError (Option ConditionFailure)) = .ok Option.none ↔
      x = .ok false ∧ y = .ok false := by
  cases x with
  | error err => simp [bind, Except.bind]
  | ok below =>
    cases below with
    | true => simp [bind, Except.bind, pure, Except.pure]
    | false =>
      cases y with
      | error err => simp [bind, Except.bind]
      | ok above => cases above <;> simp [bind, Except.bind, pure, Except.pure]

/-- The comparison lets a value through that does not show a miss. -/
theorem checkExpectation_eq_none_iff {expected actual : PyVal} :
    checkExpectation expected actual = .ok Option.none ↔ ¬ Missed expected actual := by
  cases expected with
  | dict bounds =>
    rw [checkExpectation_dict, two_tests, tooSmall_eq_false_iff, tooLarge_eq_false_iff, Missed]
    simp only [not_or, not_exists, not_and, not_not]
  | list allowed =>
    unfold checkExpectation Missed
    cases isIn actual allowed <;> simp
  | none | bool b | int n | float f | str t | tuple items =>
    unfold checkExpectation Missed
    dsimp only
    split <;> simp_all

/-- Where a key has no value the comparison is with `None`. -/
private theorem none_eq_iff {v : PyVal} : PyVal.none.eq v = true ↔ v = .none := by
  cases v <;> simp [PyVal.eq]

/-- Past the comparison, what is found under a key meets the expectation unless it slips
through. -/
theorem exists_meets_iff {expected : PyVal} {found : Option PyVal}
    (h : ¬ Missed expected (found.getD .none)) :
    (∃ v, found = some v ∧ Meets expected v) ↔ ¬ SlipsThrough expected found := by
  cases expected with
  | dict bounds =>
    unfold Missed at h
    simp only [not_or, not_exists, not_and, not_not] at h
    obtain ⟨hmin, hmax⟩ := h
    cases found with
    | none =>
      -- a missing key is refused by any bound
      have hnone : givenBound bounds "min" = Option.none ∧ givenBound bounds "max" = Option.none :=
        ⟨Option.eq_none_iff_forall_not_mem.mpr fun m hm => (hmin m hm).1 rfl,
          Option.eq_none_iff_forall_not_mem.mpr fun m hm => (hmax m hm).1 rfl⟩
      refine iff_of_false (fun ⟨v, hv, _⟩ => nomatch hv) (not_not.mpr ?_)
      exact Or.inl hnone
    | some v =>
      constructor
      · rintro ⟨_, hv, hgiven, hlow, hhigh⟩ hslip
        cases hv
        rcases hslip with ⟨hnomin, hnomax⟩ | ⟨_, hv, ⟨m, hm, _, hfar⟩ | ⟨m, hm, _, hfar⟩⟩
        · exact hgiven.elim (absurd hnomin) (absurd hnomax)
        · cases hv
          exact hfar (hlow m hm)
        · cases hv
          exact hfar (hhigh m hm)
      · intro hslip
        refine ⟨v, rfl, ?_, fun m hm => ?_, fun m hm => ?_⟩
        · by_contra hnone
          rw [not_or, not_not, not_not] at hnone
          exact hslip (Or.inl hnone)
        · by_contra hfar
          exact hslip (Or.inr ⟨v, rfl, Or.inl ⟨m, hm, (hmin m hm).2, hfar⟩⟩)
        · by_contra hfar
          exact hslip (Or.inr ⟨v, rfl, Or.inr ⟨m, hm, (hmax m hm).2, hfar⟩⟩)
  | list allowed =>
    cases found <;> simp_all [Missed, Meets, SlipsThrough]
  | none | bool b | int n | float f | str t | tuple items =>
    cases found <;> simp_all [Missed, Meets, SlipsThrough, none_eq_iff]

/-- The context shows that some condition is missed, or nothing slips through. -/
def Enforced (conditions values : Mapping) : Prop :=
  (∃ c ∈ conditions, Missed c.2 ((Dict.get? values c.1).getD .none)) ∨
    ∀ c ∈ conditions, ¬ SlipsThrough c.2 (Dict.get? values c.1)

/-- Conditions that are let through are satisfied exactly when they are enforced. -/
theorem satisfied_iff_enforced (conditions values : Mapping) :
    (conditionFailure conditions values = .ok Option.none → Satisfied conditions values) ↔
      Enforced conditions values := by
  simp only [conditionFailure_eq_none_iff, checkExpectation_eq_none_iff]
  by_cases hmissed : ∃ c ∈ conditions, Missed c.2 ((Dict.get? values c.1).getD .none)
  · obtain ⟨c, hc, hmiss⟩ := hmissed
    exact iff_of_true (fun hall => absurd hmiss (hall c hc)) (Or.inl ⟨c, hc, hmiss⟩)
  · have hall : ∀ c ∈ conditions, ¬ Missed c.2 ((Dict.get? values c.1).getD .none) :=
      fun c hc hmiss => hmissed ⟨c, hc, hmiss⟩
    rw [Enforced, or_iff_right hmissed, imp_iff_right hall]
    exact forall₂_congr fun c hc => exists_meets_iff (hall c hc)

/-- A rule that matches an event whose metadata satisfies its conditions, and a token whose
conditions let an action pass that satisfies them: exactly when the conditions are enforced, or
the rule is out of force or out of scope. -/
theorem conditions_are_sound_iff (r : DelegationRule) (e : WorkflowEvent) (t : CapabilityToken)
    (action : CapabilityService.Action) :
    ((r.matchesEvent e = .ok true → Satisfied r.conditions e.metadata) ↔
      r.active = false ∨ r.workflowId ≠ e.workflowId ∨ r.agentId ≠ e.agentId ∨
        r.authorityClass ≠ e.authorityRequested ∨ Enforced r.conditions e.metadata) ∧
    ((conditionFailure t.conditions action.context = .ok Option.none →
      Satisfied t.conditions action.context) ↔ Enforced t.conditions action.context) := by
  refine ⟨?_, satisfied_iff_enforced _ _⟩
  rw [← satisfied_iff_enforced, DelegationRule.matchesEvent_eq_true_iff]
  constructor
  · intro h
    by_contra hfails
    simp only [not_or, not_not, Bool.not_eq_false] at hfails
    obtain ⟨hactive, hworkflow, hagent, hclass, hunsound⟩ := hfails
    exact hunsound fun hconditions => h ⟨hactive, hworkflow, hagent, hclass, hconditions⟩
  · rintro h ⟨hactive, hworkflow, hagent, hclass, hconditions⟩
    rcases h with h | h | h | h | h
    · rw [hactive] at h
      cases h
    · exact absurd hworkflow h
    · exact absurd hagent h
    · exact absurd hclass h
    · exact h hconditions

/-- A rule for `deletionNotice` under conditions. -/
def conditionalRule (conditions : Mapping) : DelegationRule where
  ruleName := "rule"
  workflowId := deletionNotice.workflowId
  agentId := deletionNotice.agentId
  authorityClass := deletionNotice.authorityRequested
  autonomyLevel := .executeWithApproval
  conditions := conditions
  ruleId := "rule_1"
  createdAt := "2026-01-01T00:00:00+00:00"

/-- A `nan` is within every bound, a bound under another name is none, and a key that is not
there has the value `None`. -/
theorem conditions_slip :
    ((conditionalRule [("rows", .dict [("max", .int 100)])]).matchesEvent
        { deletionNotice with metadata := [("rows", .float (.nan 0))] } = .ok true ∧
      ¬ Satisfied [("rows", .dict [("max", .int 100)])] [("rows", .float (.nan 0))]) ∧
    ((conditionalRule [("rows", .dict [("maximum", .int 100)])]).matchesEvent
        { deletionNotice with metadata := [("rows", .int 1000)] } = .ok true ∧
      ¬ Satisfied [("rows", .dict [("maximum", .int 100)])] [("rows", .int 1000)]) ∧
    ((conditionalRule [("region", .list [.text "eu", .none])]).matchesEvent deletionNotice =
        .ok true ∧
      ¬ Satisfied [("region", .list [.text "eu", .none])] deletionNotice.metadata) := by
  refine ⟨⟨rfl, fun h => ?_⟩, ⟨rfl, fun h => ?_⟩, ⟨rfl, fun h => ?_⟩⟩
  · obtain ⟨v, hv, _, _, hmax⟩ := h _ List.mem_cons_self
    cases hv
    have hbelow := hmax (.int 100) rfl
    revert hbelow
    exact fun hbelow => nomatch hbelow
  · obtain ⟨v, _, hgiven, _⟩ := h _ List.mem_cons_self
    exact hgiven.elim (fun hmin => hmin rfl) fun hmax => hmax rfl
  · obtain ⟨v, hv, _⟩ := h _ List.mem_cons_self
    cases hv

end EarnedAutonomy
