import EarnedAutonomy.Core.ControlPlane

/-!
# The default classifier

`core/classifier.py`: the consequences and the risk of an event, from its authority
class, its texts and its metadata.

* `RuleBasedClassifier.classify` keeps what the ontology says and adds to it.  The
  engine for regular expressions is a parameter: whether a pattern occurs in a text.
* `classify_advises`: the classifier is advisory, it can only raise the risk.
-/

namespace EarnedAutonomy

/-- What a classifier has found so far. -/
structure Classification where
  consequences : List ConsequenceClass
  risk : RiskLevel
  reasons : List PyStr

/-- Raise the risk to at least this level, for a reason. -/
def Classification.raiseTo (c : Classification) (level : RiskLevel) (reason : String) :
    Classification :=
  { c with risk := maxRisk c.risk level, reasons := c.reasons ++ [.utf8 reason] }

/-- Add a consequence that the metadata names, if it is not there yet. -/
def Classification.addConsequence (c : Classification) (flagged : Bool)
    (consequence : ConsequenceClass) (level : RiskLevel) (reason : String) : Classification :=
  if flagged && consequence ∉ c.consequences then
    { c.raiseTo level reason with consequences := c.consequences ++ [consequence] }
  else c

namespace RuleBasedClassifier

/-- `HIGH_RISK_PATTERNS` -/
def highRiskPatterns : List String := [
  "\\bdiscount", "\\brefund", "\\bcontract", "\\blegal", "\\bguarantee",
  "\\bdelet", "\\bpurg", "\\bdrop\\b", "\\btruncat", "\\bwipe",
  "\\bproduction\\b", "\\bpayment", "\\bwire\\b", "\\btransfer",
  "\\bterminat", "\\bdisburse", "\\bcredential", "\\bprivilege",
  "\\broot\\b", "\\bsudo\\b"]

/-- `event.confidence < 0.5` -/
def lowConfidenceThreshold : PyFloat := .exact 1 1

/-- The text that is searched for high-risk language. -/
def scannedText (e : WorkflowEvent) : PyStr :=
  .join " " [e.intent, e.proposedNextState, e.expectedEffect,
    .join " " (e.evidence.map EvidenceItem.claim)]

/-- What the authority class alone says. -/
def base (e : WorkflowEvent) : Classification where
  consequences := consequencesFor e.authorityRequested
  risk := baseRiskFor e.authorityRequested
  reasons := [.utf8 ("Base risk from authority class: " ++ e.authorityRequested.value)]

/-- Note every pattern that occurs in the text. -/
def scan (search : String → PyStr → Bool) (text : PyStr) (c : Classification) : Classification :=
  highRiskPatterns.foldl (fun c raw =>
    if search raw text then c.raiseTo .high ("High-risk language matched: /" ++ raw ++ "/")
    else c) c

/-- Note what an execution lacks. -/
def noteExecution (e : WorkflowEvent) (c : Classification) : Classification :=
  let c := if e.confidence.lt lowConfidenceThreshold && e.requiresExecution then
      c.raiseTo .medium "Low-confidence execution request"
    else c
  if e.evidence.isEmpty && e.requiresExecution then
    c.raiseTo .medium "Execution requested with no evidence"
  else c

/-- The classification of an event. -/
def classification (search : String → PyStr → Bool) (e : WorkflowEvent) : Classification :=
  let c := scan search (scannedText e) (base e)
  let c := c.addConsequence (e.meta? "external_effect").isTrue .externalFacing .medium
    "Metadata indicates external effect"
  let c := c.addConsequence (e.meta? "irreversible").isTrue .irreversible .critical
    "Metadata indicates irreversible effect"
  noteExecution e c

/-- `RuleBasedClassifier.classify`, where `search` says whether a pattern occurs in a text. -/
def classify (search : String → PyStr → Bool) : Classifier := fun e =>
  let c := classification search e
  .ok (c.consequences.eraseDupsBy fun a b => a.value = b.value, c.risk, c.reasons)

/-! ## The classifier only raises the risk -/

theorem riskOrder_le_maxRisk (a b : RiskLevel) : riskOrder a ≤ riskOrder (maxRisk a b) := by
  unfold maxRisk
  split <;> omega

theorem riskOrder_le_maxRisk_right (a b : RiskLevel) : riskOrder b ≤ riskOrder (maxRisk a b) := by
  unfold maxRisk
  split <;> omega

theorem eq_critical_iff {r : RiskLevel} : r = .critical ↔ riskOrder .critical ≤ riskOrder r := by
  cases r <;> decide

/-- The risk is not lower, and no consequence is gone. -/
structure Raises (c c' : Classification) : Prop where
  risk : riskOrder c.risk ≤ riskOrder c'.risk
  consequences : c.consequences ⊆ c'.consequences

variable {c c' c'' : Classification}

theorem Raises.refl (c : Classification) : Raises c c := ⟨Nat.le_refl _, List.Subset.refl _⟩

theorem Raises.trans (h : Raises c c') (h' : Raises c' c'') : Raises c c'' :=
  ⟨Nat.le_trans h.risk h'.risk, List.Subset.trans h.consequences h'.consequences⟩

theorem raises_raiseTo (c : Classification) (level : RiskLevel) (reason : String) :
    Raises c (c.raiseTo level reason) := ⟨riskOrder_le_maxRisk _ _, List.Subset.refl _⟩

theorem raises_addConsequence (c : Classification) (flagged : Bool)
    (consequence : ConsequenceClass) (level : RiskLevel) (reason : String) :
    Raises c (c.addConsequence flagged consequence level reason) := by
  unfold Classification.addConsequence
  split
  · exact ⟨riskOrder_le_maxRisk _ _, List.subset_append_left _ _⟩
  · exact .refl c

theorem raises_scan (search : String → PyStr → Bool) (text : PyStr) (c : Classification) :
    Raises c (scan search text c) := by
  unfold scan
  generalize highRiskPatterns = patterns
  induction patterns generalizing c with
  | nil => exact .refl c
  | cons raw rest ih =>
    rw [List.foldl_cons]
    refine Raises.trans ?_ (ih _)
    split
    · exact raises_raiseTo _ _ _
    · exact .refl c

/-- Language adds no consequence. -/
theorem consequences_scan (search : String → PyStr → Bool) (text : PyStr) (c : Classification) :
    (scan search text c).consequences = c.consequences := by
  unfold scan
  generalize highRiskPatterns = patterns
  induction patterns generalizing c with
  | nil => rfl
  | cons raw rest ih =>
    rw [List.foldl_cons, ih]
    split <;> rfl

theorem raises_noteExecution (e : WorkflowEvent) (c : Classification) :
    Raises c (noteExecution e c) := by
  unfold noteExecution
  dsimp only
  have hlow : Raises c (if e.confidence.lt lowConfidenceThreshold && e.requiresExecution
      then c.raiseTo .medium "Low-confidence execution request" else c) := by
    split
    · exact raises_raiseTo _ _ _
    · exact .refl c
  split
  · exact hlow.trans (raises_raiseTo _ _ _)
  · exact hlow

/-- The classification keeps what the authority class says. -/
theorem raises_classification (search : String → PyStr → Bool) (e : WorkflowEvent) :
    Raises (base e) (classification search e) := by
  unfold classification
  exact (((raises_scan _ _ _).trans (raises_addConsequence _ _ _ _ _)).trans
    (raises_addConsequence _ _ _ _ _)).trans (raises_noteExecution _ _)

/-- What is irreversible by its class is critical by its class. -/
theorem baseRiskFor_of_irreversible {authority : AuthorityClass}
    (h : .irreversible ∈ consequencesFor authority) : baseRiskFor authority = .critical := by
  revert h
  cases authority <;> decide

/-- What the metadata call irreversible is critical, and has the consequence. -/
theorem classification_irreversible (search : String → PyStr → Bool) {e : WorkflowEvent}
    (h : (e.meta? "irreversible").isTrue = true) :
    (classification search e).risk = .critical ∧
      .irreversible ∈ (classification search e).consequences := by
  let external := (scan search (scannedText e) (base e)).addConsequence
    (e.meta? "external_effect").isTrue .externalFacing .medium "Metadata indicates external effect"
  let flagged := external.addConsequence (e.meta? "irreversible").isTrue .irreversible .critical
    "Metadata indicates irreversible effect"
  have hflagged : flagged.risk = .critical ∧ .irreversible ∈ flagged.consequences := by
    unfold flagged Classification.addConsequence
    rw [h, Bool.true_and]
    split
    · exact ⟨eq_critical_iff.mpr (riskOrder_le_maxRisk_right _ _), by simp⟩
    · -- the flag adds nothing: the class has the consequence already
      rename_i hhas
      have hhas : .irreversible ∈ external.consequences := by simpa using hhas
      refine ⟨?_, hhas⟩
      have hclass : .irreversible ∈ consequencesFor e.authorityRequested := by
        unfold external Classification.addConsequence at hhas
        split at hhas
        · simpa [consequences_scan, base] using hhas
        · simpa [consequences_scan, base] using hhas
      have hraises : Raises (base e) external :=
        (raises_scan _ _ _).trans (raises_addConsequence _ _ _ _ _)
      have hrisk := hraises.risk
      rw [show (base e).risk = .critical from baseRiskFor_of_irreversible hclass] at hrisk
      exact eq_critical_iff.mpr hrisk
  have hraises : Raises flagged (classification search e) := raises_noteExecution e flagged
  refine ⟨eq_critical_iff.mpr ?_, hraises.consequences hflagged.2⟩
  rw [← hflagged.1]
  exact hraises.risk

/-! ### The answer -/

theorem ConsequenceClass.value_injective : Function.Injective ConsequenceClass.value := by
  intro a b h
  cases a <;> cases b <;> first | rfl | exact absurd h (by decide)

theorem nodup_eraseDups {α : Type} [BEq α] [LawfulBEq α] : ∀ l : List α, l.eraseDups.Nodup
  | [] => List.nodup_nil
  | a :: rest => by
    rw [List.eraseDups_cons, List.nodup_cons, List.mem_eraseDups]
    exact ⟨by simp, nodup_eraseDups _⟩
termination_by l => l.length
decreasing_by
  rw [List.length_cons]
  exact Nat.lt_succ_of_le (List.length_filter_le _ _)

/-- `classify` takes each consequence once. -/
theorem classify_eq (search : String → PyStr → Bool) (e : WorkflowEvent) :
    classify search e = .ok ((classification search e).consequences.eraseDups,
      (classification search e).risk, (classification search e).reasons) := by
  have hsame : (fun a b : ConsequenceClass => decide (a.value = b.value)) = (· == ·) := by
    funext a b
    rw [beq_eq_decide]
    exact decide_eq_decide.mpr ConsequenceClass.value_injective.eq_iff
  unfold classify
  rw [hsame]
  rfl

/-- What `classify` answers for an event. -/
structure Advises (e : WorkflowEvent) (consequences : List ConsequenceClass) (risk : RiskLevel) :
    Prop where
  atLeastBase : riskOrder (baseRiskFor e.authorityRequested) ≤ riskOrder risk
  nodup : consequences.Nodup
  hasBase : consequencesFor e.authorityRequested ⊆ consequences
  irreversible : (e.meta? "irreversible").isTrue = true →
    risk = .critical ∧ .irreversible ∈ consequences

/-- `classify` always answers, and never below what the authority class says. -/
theorem classify_advises (search : String → PyStr → Bool) (e : WorkflowEvent) :
    ∃ consequences risk reasons, classify search e = .ok (consequences, risk, reasons) ∧
      Advises e consequences risk := by
  refine ⟨_, _, _, classify_eq search e, (raises_classification search e).risk,
    nodup_eraseDups _, fun c hc => List.mem_eraseDups.mpr ?_, fun h => ?_⟩
  · exact (raises_classification search e).consequences hc
  · obtain ⟨hrisk, hmem⟩ := classification_irreversible search h
    exact ⟨hrisk, List.mem_eraseDups.mpr hmem⟩

end RuleBasedClassifier

end EarnedAutonomy
