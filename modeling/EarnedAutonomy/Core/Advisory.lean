import EarnedAutonomy.Core.Proposals
import EarnedAutonomy.Core.SignedDecisions

/-!
# What the classifier decides

A classifier can be replaced, and a decision takes its consequences and its risk from it.
Nothing else of a decision depends on it.

* `evaluate_advised`: an evaluation is one without advice, with the consequences of the
  classifier and at least its risk.
* `advised_outcome` carries this over a whole proposal, up to the token.
* `classifier_is_advisory`: two classifiers lead to one status and one grant.
-/

namespace EarnedAutonomy

open Store LawfulStore

/-! ## One evaluation -/

/-- The decision with these consequences and this risk. -/
def PolicyDecision.advised (consequences : List ConsequenceClass) (level : RiskLevel)
    (d : PolicyDecision) : PolicyDecision :=
  { d with consequenceClasses := consequences, riskLevel := level }

section

variable {e : WorkflowEvent} {current : AutonomyLevel} {rule? : Option DelegationRule}
variable {consequences : List ConsequenceClass} {risk : RiskLevel} {reasons : List PyStr}

theorem statusForLevel_advised (effective : AutonomyLevel) (policyName : Option PyStr)
    (ceiling : AutonomyLevel) (clamped : Bool) :
    statusForLevel e effective risk consequences policyName ceiling clamped rule? =
      (statusForLevel e effective .low [] policyName ceiling clamped rule?).advised
        consequences risk := by
  unfold statusForLevel
  simp only [apply_ite (PolicyDecision.advised consequences risk)]
  rfl

/-- The classifier has no part in an evaluation but for its consequences and its risk, which
a boundary rule can raise. -/
theorem evaluate_advised (engine : PolicyEngine) (e : WorkflowEvent) (current : AutonomyLevel)
    (rule? : Option DelegationRule) (consequences : List ConsequenceClass) (risk : RiskLevel) :
    ∃ level, riskOrder risk ≤ riskOrder level ∧
      engine.evaluate e current consequences risk rule? =
        (engine.evaluate e current [] .low rule?).map (·.advised consequences level) := by
  unfold PolicyEngine.evaluate
  dsimp only
  cases engine.boundaryRules.find? (·.matchesEvent e) with
  | some boundary =>
    exact ⟨_, RuleBasedClassifier.riskOrder_le_maxRisk _ boundary.riskLevel, rfl⟩
  | none =>
    refine ⟨risk, Nat.le_refl _, ?_⟩
    cases grantingRule current rule? with
    | none =>
      dsimp only
      rw [statusForLevel_advised]
      rfl
    | some rule =>
      dsimp only
      cases evaluateGuards rule.requiresApprovalIf e with
      | error err => rfl
      | ok triggered =>
        simp only [bind, Except.bind]
        cases triggered.isEmpty with
        | true =>
          rw [statusForLevel_advised]
          rfl
        | false => rfl

end

/-! ## A proposal -/

namespace ControlPlane

/-- The packet with this advice. -/
def Packet.advised (consequences : List ConsequenceClass) (level : RiskLevel)
    (reasons : List PyStr) (p : Packet) : Packet :=
  { p with decision := p.decision.advised consequences level, classifierReasons := reasons }

/-- Advice is written with a packet if its reasons can be. -/
theorem Packet.encodable_advised {p : Packet} {consequences : List ConsequenceClass}
    {level : RiskLevel} {reasons : List PyStr} (hreasons : p.classifierReasons = []) :
    (p.advised consequences level reasons).ledgerDict.Encodable ↔
      p.ledgerDict.Encodable ∧ ∀ t ∈ reasons, t.isUtf8 = true := by
  rw [encodable_ledgerDict, encodable_ledgerDict, hreasons]
  simp only [PolicyDecision.encodable_toDict]
  constructor
  · rintro ⟨hevent, hagent, hdecision, hutf, hrule⟩
    exact ⟨⟨hevent, hagent, hdecision, by simp, hrule⟩, hutf⟩
  · rintro ⟨⟨hevent, hagent, hdecision, _, hrule⟩, hutf⟩
    exact ⟨hevent, hagent, hdecision, hutf, hrule⟩

variable {P : Primitives} {F : Type} (cp : ControlPlane P F)

/-- The control plane with another classifier. -/
def advisedBy (classify : Classifier) : ControlPlane P F := { cp with classify := classify }

/-- The control plane with a classifier that has nothing to say. -/
def unadvised : ControlPlane P F := cp.advisedBy fun _ => .ok ([], .low, [])

end ControlPlane

open ControlPlane

section

variable {P : Primitives} {F : Type} {cp : ControlPlane P F} {o : Oracle}
variable {S C L : Type} [Store S] [CapabilityStateStore C] [AuditLog L]
variable {w w' : World S C L} {e : WorkflowEvent} {classify : Classifier}
variable {consequences : List ConsequenceClass} {risk : RiskLevel} {reasons : List PyStr}

variable (cp) in
omit [CapabilityStateStore C] [AuditLog L] in
/-- What is assessed with a classifier is assessed without it, and has its advice. -/
theorem assessment_advisedBy (hadvice : classify e = .ok (consequences, risk, reasons)) (s : S)
    (agent : AgentIdentity) :
    ∃ level, riskOrder risk ≤ riskOrder level ∧
      (cp.advisedBy classify).assessment s e agent =
        (cp.unadvised.assessment s e agent).map (Packet.advised consequences level reasons) := by
  unfold assessment
  have hclass : (cp.advisedBy classify).classify e = .ok (consequences, risk, reasons) := hadvice
  have hnone : cp.unadvised.classify e = .ok ([], .low, []) := rfl
  rw [hclass, hnone]
  cases agent.autonomyFor e.workflowId e.authorityRequested with
  | error err => exact ⟨risk, Nat.le_refl _, rfl⟩
  | ok current =>
    cases matchingRule e s with
    | error err => exact ⟨risk, Nat.le_refl _, rfl⟩
    | ok rule? =>
      obtain ⟨level, hlevel, heval⟩ := evaluate_advised cp.policyEngine
        (withApprovedWorkflows e agent) current rule? consequences risk
      refine ⟨level, hlevel, ?_⟩
      have hengine : (cp.advisedBy classify).policyEngine = cp.policyEngine := rfl
      have hengine' : cp.unadvised.policyEngine = cp.policyEngine := rfl
      simp only [bind, Except.bind, hengine, hengine', heval]
      cases cp.policyEngine.evaluate (withApprovedWorkflows e agent) current [] .low rule? <;> rfl

omit [CapabilityStateStore C] [AuditLog L] in
theorem reasons_of_unadvised {s : S} {agent : AgentIdentity} {p : Packet}
    (h : cp.unadvised.assessment s e agent = .ok p) : p.classifierReasons = [] := by
  obtain ⟨_, _, _, _, _, _, hclass, _, _, _, rfl⟩ := assessment_eq_ok_iff.mp h
  cases hclass
  rfl

omit [CapabilityStateStore C] [AuditLog L] in
/-- Everything before the assessment is the same for every classifier. -/
theorem assesses_advisedBy_iff [LawfulStore S] {p : Packet} :
    Assesses (cp.advisedBy classify) o w e w' p ↔
      (cp.found o w e = some (p.agent, w') ∧ cp.Authentic p.agent e ∧
        (view w.store).nonces e.agentId e.nonce = false) ∧
        (cp.advisedBy classify).assessment w'.store e p.agent = .ok p := by
  constructor
  · rintro ⟨hfound, ⟨hactive, hsigned⟩, hfree, hanswered⟩
    exact ⟨⟨hfound, ⟨hactive, hsigned⟩, hfree⟩, hanswered⟩
  · rintro ⟨⟨hfound, ⟨hactive, hsigned⟩, hfree⟩, hanswered⟩
    exact ⟨hfound, ⟨hactive, hsigned⟩, hfree, hanswered⟩

omit [CapabilityStateStore C] [AuditLog L] in
/-- A classifier's proposal is one without a classifier, with its advice. -/
theorem assesses_advised [LawfulStore S] {p : Packet}
    (hadvice : classify e = .ok (consequences, risk, reasons))
    (h : Assesses (cp.advisedBy classify) o w e w' p) :
    ∃ level p₀, riskOrder risk ≤ riskOrder level ∧ Assesses cp.unadvised o w e w' p₀ ∧
      p = p₀.advised consequences level reasons := by
  obtain ⟨hbefore, hanswered⟩ := assesses_advisedBy_iff.mp h
  obtain ⟨level, hlevel, hmap⟩ := assessment_advisedBy cp hadvice w'.store p.agent
  rw [hmap] at hanswered
  cases hwithout : cp.unadvised.assessment w'.store e p.agent with
  | error err =>
    rw [hwithout] at hanswered
    cases hanswered
  | ok p₀ =>
    rw [hwithout] at hanswered
    obtain rfl := Except.ok.inj hanswered
    exact ⟨level, p₀, hlevel, assesses_advisedBy_iff.mpr ⟨hbefore, hwithout⟩, rfl⟩

omit [CapabilityStateStore C] [AuditLog L] in
/-- What is assessed without a classifier is assessed with any that answers. -/
theorem assesses_of_unadvised [LawfulStore S] {p : Packet}
    (hadvice : classify e = .ok (consequences, risk, reasons))
    (h : Assesses cp.unadvised o w e w' p) :
    ∃ level, Assesses (cp.advisedBy classify) o w e w' (p.advised consequences level reasons) := by
  obtain ⟨hbefore, hanswered⟩ := assesses_advisedBy_iff.mp h
  obtain ⟨level, _, hmap⟩ := assessment_advisedBy cp hadvice w'.store p.agent
  refine ⟨level, assesses_advisedBy_iff.mpr ⟨hbefore, ?_⟩⟩
  change (cp.advisedBy classify).assessment w'.store e p.agent = _
  rw [hmap]
  unfold unadvised
  rw [hanswered]
  rfl

/-! ## Outcomes -/

variable [LawfulStore S] [LawfulAuditLog L] [LawfulRecorder L] [Arithmetic F] {replica : Nat}

/-- The outcome of a proposal under a control plane. -/
def proposed (cp : ControlPlane P F) (o : Oracle) (replica : Nat) (w : World S C L)
    (e : WorkflowEvent) : Option Outcome :=
  outcomeOf ((cp.system o).serve w (replica, .proposeEvent e)).result

/-- An outcome under a classifier is that without one, with its advice. -/
theorem advised_outcome {out : Outcome}
    (hadvice : classify e = .ok (consequences, risk, reasons))
    (h : proposed (cp.advisedBy classify) o replica w e = some out) :
    ∃ level out₀, riskOrder risk ≤ riskOrder level ∧
      proposed cp.unadvised o replica w e = some out₀ ∧ (∀ t ∈ reasons, t.isUtf8 = true) ∧
      out = ⟨out₀.decision.advised consequences level, out₀.grant⟩ := by
  obtain ⟨w', p, hassesses, hexpires, hencodable, rfl⟩ := (outcome_iff replica).mp h
  obtain ⟨level, p₀, hlevel, hwithout, rfl⟩ := assesses_advised hadvice hassesses
  obtain ⟨hencodable, hutf⟩ :=
    (Packet.encodable_advised (reasons_of_unadvised hwithout.answered)).mp hencodable
  exact ⟨level, ⟨p₀.decision, p₀.granted⟩, hlevel,
    (outcome_iff replica).mpr ⟨w', p₀, hwithout, hexpires, hencodable, rfl⟩, hutf, rfl⟩

/-- Whatever is answered without a classifier is answered with any whose reasons can be
written. -/
theorem outcome_of_unadvised {out : Outcome}
    (hadvice : classify e = .ok (consequences, risk, reasons))
    (hutf : ∀ t ∈ reasons, t.isUtf8 = true)
    (h : proposed cp.unadvised o replica w e = some out) :
    (proposed (cp.advisedBy classify) o replica w e).isSome = true := by
  obtain ⟨w', p, hassesses, hexpires, hencodable, _⟩ := (outcome_iff replica).mp h
  obtain ⟨level, hwith⟩ := assesses_of_unadvised hadvice hassesses
  have hadvised : (p.advised consequences level reasons).ledgerDict.Encodable :=
    (Packet.encodable_advised (reasons_of_unadvised hassesses.answered)).mpr ⟨hencodable, hutf⟩
  exact Option.isSome_of_eq_some
    ((outcome_iff replica).mpr ⟨w', _, hwith, hexpires, hadvised, rfl⟩)

/-- Two outcomes with one status, one set of guards, one rate and one grant. -/
structure SameGate (out out' : Outcome) : Prop where
  status : out.decision.status = out'.decision.status
  triggeredGuards : out.decision.triggeredGuards = out'.decision.triggeredGuards
  sampleRate : out.decision.sampleRate = out'.decision.sampleRate
  grant : out.grant = out'.grant

variable (o replica w e) in
/-- The default classifier stays above the authority class, a proposal stays above its
classifier, and two classifiers lead to one status and one grant.  The reasons that a
classifier gives decide only whether the ledger can record the answer. -/
theorem classifier_is_advisory :
    (∀ search, ∃ consequences risk reasons,
      RuleBasedClassifier.classify search e = .ok (consequences, risk, reasons) ∧
        RuleBasedClassifier.Advises e consequences risk) ∧
    (∀ cp : ControlPlane P F, ∀ out, proposed cp o replica w e = some out →
      ∃ consequences risk reasons, cp.classify e = .ok (consequences, risk, reasons) ∧
        riskOrder risk ≤ riskOrder out.decision.riskLevel) ∧
    ∀ (cp : ControlPlane P F) (classify classify' : Classifier) (advice advice'),
      classify e = .ok advice → classify' e = .ok advice' → ∀ out,
        proposed (cp.advisedBy classify) o replica w e = some out →
          (∀ out', proposed (cp.advisedBy classify') o replica w e = some out' →
            SameGate out out') ∧
          ((proposed (cp.advisedBy classify') o replica w e).isSome = true ↔
            ∀ t ∈ advice'.2.2, t.isUtf8 = true) := by
  refine ⟨fun search => RuleBasedClassifier.classify_advises search e, fun cp out h => ?_, ?_⟩
  · obtain ⟨w', p, hassesses, _⟩ := (outcome_iff replica).mp h
    obtain ⟨consequences, risk, reasons, _, _, _, hadvice, _⟩ :=
      assessment_eq_ok_iff.mp hassesses.answered
    have h : proposed (cp.advisedBy cp.classify) o replica w e = some out := h
    obtain ⟨level, out₀, hlevel, _, _, rfl⟩ := advised_outcome hadvice h
    exact ⟨consequences, risk, reasons, hadvice, hlevel⟩
  · rintro cp classify classify' ⟨_, _, _⟩ ⟨_, _, reasons'⟩ hadvice hadvice' out h
    obtain ⟨_, out₀, _, hwithout, _, rfl⟩ := advised_outcome hadvice h
    refine ⟨fun out' h' => ?_, fun hsome => ?_, fun hutf => ?_⟩
    · obtain ⟨_, out₀', _, hwithout', _, rfl⟩ := advised_outcome hadvice' h'
      obtain rfl := Option.some.inj (hwithout.symm.trans hwithout')
      exact ⟨rfl, rfl, rfl, rfl⟩
    · obtain ⟨out', h'⟩ := Option.isSome_iff_exists.mp hsome
      obtain ⟨_, _, _, _, hutf, _⟩ := advised_outcome hadvice' h'
      exact hutf
    · exact outcome_of_unadvised hadvice' hutf hwithout

end

/-! ### Two classifiers -/

/-- A classifier that finds every pattern in every text. -/
def alarmed : Classifier := RuleBasedClassifier.classify fun _ _ => true

/-- What a preparation is answered with under a classifier. -/
def preparation (classify : Classifier) : Option Outcome :=
  proposed (demoPlane.advisedBy classify) (demoOracle fun _ => demoHour 12) 0 knownWorld
    (demoEvent false)

/-- One reports a high risk and the other does not, and the action may proceed under both, with
one grant. -/
theorem two_classifiers_one_grant :
    (preparation demoClassify).map (·.decision.riskLevel) = some .low ∧
      (preparation alarmed).map (·.decision.riskLevel) = some .high ∧
      ((preparation alarmed).bind Outcome.grant).isSome = true ∧
      ∀ out, preparation demoClassify = some out → ∀ out', preparation alarmed = some out' →
        SameGate out out' := by
  obtain ⟨_, _, hsame⟩ := classifier_is_advisory (P := Primitives.named) (F := Dyadic)
    (demoOracle fun _ => demoHour 12) knownWorld (demoEvent false) 0
  refine ⟨by decide +kernel, by decide +kernel, by decide +kernel, fun out h => ?_⟩
  exact (hsame demoPlane demoClassify alarmed _ _ rfl rfl out h).1

end EarnedAutonomy
