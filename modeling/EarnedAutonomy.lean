import EarnedAutonomy.Lib.Interleave
import EarnedAutonomy.Lib.Register
import EarnedAutonomy.Lib.Calendar
import EarnedAutonomy.Core.Policy
import EarnedAutonomy.Crypto
import EarnedAutonomy.Core.Recommendations
import EarnedAutonomy.Core.CapabilityRuns
import EarnedAutonomy.Core.Ledger
import EarnedAutonomy.Storage.Store
import EarnedAutonomy.Enforcement.Pep
import EarnedAutonomy.Core.ControlPlane
import EarnedAutonomy.Lib.History
import EarnedAutonomy.Core.SeparationOfDuties
import EarnedAutonomy.Core.TokenLog
import EarnedAutonomy.Core.Mediation
import EarnedAutonomy.Core.Incidents
import EarnedAutonomy.Python.JsonStorage
import EarnedAutonomy.Lib.HashChain
import EarnedAutonomy.Core.LedgerStorage
import EarnedAutonomy.Core.LedgerConcurrency
import EarnedAutonomy.Core.Recordable
import EarnedAutonomy.Core.Atomicity
import EarnedAutonomy.Core.Proposals
import EarnedAutonomy.Lib.Search
import EarnedAutonomy.Core.RuleSearch
import EarnedAutonomy.Core.RuleOrder
import EarnedAutonomy.Core.Tightening
import EarnedAutonomy.Python.KeyOrder
import EarnedAutonomy.Core.TrustLog
import EarnedAutonomy.Core.TrustRecords
import EarnedAutonomy.Core.StoredEvents
import EarnedAutonomy.Storage.Rows
import EarnedAutonomy.Core.Attribution
import EarnedAutonomy.Core.ConcurrentIncidents
import EarnedAutonomy.Core.ExecutionPolicy
import EarnedAutonomy.Core.ServerGuards
import EarnedAutonomy.Core.MessageKinds
import EarnedAutonomy.Core.Classifier
import EarnedAutonomy.Core.SignedFields
import EarnedAutonomy.Core.SignedDecisions
import EarnedAutonomy.Lib.Simulation
import EarnedAutonomy.Storage.Tables
import EarnedAutonomy.Core.CapabilityBackends
import EarnedAutonomy.Core.ClosedScopes
import EarnedAutonomy.Core.Ladder
import EarnedAutonomy.Lib.Wilson
import EarnedAutonomy.Python.RealArithmetic
import EarnedAutonomy.Core.Evidence
import EarnedAutonomy.Core.EarnedLevels
import EarnedAutonomy.Core.SoundConditions
import EarnedAutonomy.Core.Verification
import EarnedAutonomy.Core.IncidentFrame
import EarnedAutonomy.Core.Approvals
import EarnedAutonomy.Core.Vetting
import EarnedAutonomy.Core.TrustFold
import EarnedAutonomy.Enforcement.Sdk
import EarnedAutonomy.Core.UsableTokens
import EarnedAutonomy.Core.InFlight
import EarnedAutonomy.Core.Replicas
import EarnedAutonomy.Core.PurgedTokens
import EarnedAutonomy.Core.LedgerFaults
import EarnedAutonomy.Core.Advisory
