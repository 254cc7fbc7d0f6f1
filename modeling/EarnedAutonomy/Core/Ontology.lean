import EarnedAutonomy.Core.Models

/-!
# The authority ontology

The tables of `core/ontology.py`: what each authority class can cause, how
risky it is, and how much autonomy it can ever have.

The ceiling is the central invariant of the policy.  It depends on the class
alone, so no amount of trust moves it.
-/

namespace EarnedAutonomy

/-! ## Tables -/

/-- `AUTHORITY_TO_CONSEQUENCE` -/
def consequencesFor : AuthorityClass → List ConsequenceClass
  | .observe => [.informational]
  | .search => [.informational]
  | .summarize => [.informational]
  | .classify => [.internalOnly]
  | .score => [.internalOnly]
  | .recommend => [.internalOnly]
  | .draft => [.internalOnly]
  | .modifyInternalRecord => [.internalRecordChange]
  | .modifyExternalRecord => [.externalFacing]
  | .communicateInternally => [.internalOnly]
  | .communicateExternally => [.externalFacing, .reputational]
  | .schedule => [.internalRecordChange]
  | .commitCommercialPosition => [.customerImpacting, .financial]
  | .offerPricingOrDiscount => [.financial, .customerImpacting]
  | .changeLegalPosition => [.legal, .regulated]
  | .spendMoney => [.financial]
  | .transferValue => [.financial, .irreversible]
  | .grantAccess => [.securitySensitive]
  | .revokeAccess => [.securitySensitive, .customerImpacting]
  | .deleteData => [.irreversible, .productionImpacting]
  | .modifyProductionSystem => [.productionImpacting]
  | .bindOrganization => [.legal, .financial]
  | .escalateToHuman => [.informational]

/-- `BASE_RISK_BY_AUTHORITY` -/
def baseRiskFor : AuthorityClass → RiskLevel
  | .observe => .low
  | .search => .low
  | .summarize => .low
  | .classify => .low
  | .score => .low
  | .recommend => .low
  | .draft => .low
  | .modifyInternalRecord => .low
  | .modifyExternalRecord => .medium
  | .communicateInternally => .low
  | .communicateExternally => .medium
  | .schedule => .low
  | .commitCommercialPosition => .high
  | .offerPricingOrDiscount => .high
  | .changeLegalPosition => .critical
  | .spendMoney => .high
  | .transferValue => .critical
  | .grantAccess => .high
  | .revokeAccess => .high
  | .deleteData => .critical
  | .modifyProductionSystem => .critical
  | .bindOrganization => .critical
  | .escalateToHuman => .low

/-- `RISK_ORDER` -/
def riskOrder : RiskLevel → Nat
  | .low => 1
  | .medium => 2
  | .high => 3
  | .critical => 4

/-- `CONSEQUENCE_RANK` -/
def consequenceClassRank : ConsequenceClass → Nat
  | .informational => 0
  | .internalOnly => 1
  | .internalRecordChange => 2
  | .externalFacing => 3
  | .reputational => 3
  | .customerImpacting => 4
  | .securitySensitive => 5
  | .financial => 5
  | .regulated => 5
  | .productionImpacting => 6
  | .legal => 6
  | .irreversible => 7

/-- The most autonomy a risk level allows.  A human stays in the loop for
critical classes. -/
def maxAutonomyByRisk : RiskLevel → AutonomyLevel
  | .low => .delegatedAuthority
  | .medium => .conditionalAutonomy
  | .high => .executeWithSampling
  | .critical => .executeWithApproval

/-- Classes that never reach the autonomy machinery. -/
def hardBlockedAuthorities : List AuthorityClass :=
  [.changeLegalPosition, .bindOrganization]

/-- Classes that need a second approver. -/
def separationOfDutiesAuthorities : List AuthorityClass :=
  [.offerPricingOrDiscount, .spendMoney, .transferValue, .grantAccess, .revokeAccess,
    .deleteData, .modifyProductionSystem]

/-- Classes that do not change state. -/
def nonStateAuthorities : List AuthorityClass :=
  [.observe, .search, .summarize, .classify, .score, .recommend, .draft,
    .escalateToHuman]

/-! ## Lookups -/

/-- The risk that sorts last, the first one on a tie. -/
def maxRisk (a b : RiskLevel) : RiskLevel := if riskOrder a < riskOrder b then b else a

/-- The rank of the gravest consequence. -/
def consequenceRank (authority : AuthorityClass) : Nat :=
  ((consequencesFor authority).map consequenceClassRank).foldl Nat.max 0

/-- The most autonomy an authority class may ever reach. -/
def autonomyCeilingFor (authority : AuthorityClass) : AutonomyLevel :=
  if authority ∈ hardBlockedAuthorities then .observeOnly
  else maxAutonomyByRisk (baseRiskFor authority)

def requiresSeparationOfDuties (authority : AuthorityClass) : Bool :=
  authority ∈ separationOfDutiesAuthorities

def isNonState (authority : AuthorityClass) : Bool := authority ∈ nonStateAuthorities

/-- A class whose ceiling keeps a human in the loop changes state. -/
theorem isNonState_eq_false_of_ceiling {c : AuthorityClass}
    (h : (autonomyCeilingFor c).value ≤ AutonomyLevel.executeWithApproval.value) :
    isNonState c = false := by
  revert h
  cases c <;> decide

end EarnedAutonomy
