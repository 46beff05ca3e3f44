import TexGovernance.Kernel.Recovery
import TexGovernance.Forbid.Scoping
import TexGovernance.Safeflow.Containment
import TexGovernance.Safeflow.Recovery
import TexGovernance.Camel.RunHistory
import TexGovernance.PathPolicy.Rv4Permanence
import TexGovernance.LtlfAgreement
import TexGovernance.Interchange.Quorum
import TexGovernance.Contracts.RecoveryRecords
import TexGovernance.Engine.SessionIsolation
import TexGovernance.Provenance.SequenceGaps
import TexGovernance.Pcas.Extension
import TexGovernance.Ifc.FlowSound
import TexGovernance.Ifc.AlarmsLast
import TexGovernance.Ifc.Fingerprint
import TexGovernance.Pcas.StratifyExact
import TexGovernance.Deterministic.CadenceExact
import TexGovernance.Kernel.VerdictCache
import TexGovernance.Authority.Lineage
import TexGovernance.Enforcement.PermitExact
import TexGovernance.Pep.Resource
import TexGovernance.Authority.ExchangeBinding
import TexGovernance.Governance.StandingExact
import TexGovernance.Domain.RecipientHost
import TexGovernance.Institutional.ControllerRuns
import TexGovernance.Institutional.SemanticRegime
import TexGovernance.Vet.StatementClaims
import TexGovernance.Stores.RevisionHistory
import TexGovernance.Forbid.LocalRetention
import TexGovernance.Stores.ProposalRuns
import TexGovernance.Learning.AtomicRuns
import TexGovernance.Vet.DisclosureSound
import TexGovernance.Engine.RiskMonotone
import TexGovernance.Specialists.Fusion
import TexGovernance.Engine.CrcGate
import TexGovernance.Interchange.RequestFormats
import TexGovernance.Engine.PrecedentFacts
import TexGovernance.Contracts.LtlGrammar
import TexGovernance.Contracts.AtomReading
import TexGovernance.Contracts.RuleOfTwo
import TexGovernance.Engine.LedgerWindow
import TexGovernance.Systemic.ProbGuard
import TexGovernance.Ifc.SessionKey
import TexGovernance.Safeflow.TransactionHash
import TexGovernance.Stores.PolicyIndexes
import TexGovernance.Kernel.RateLimit
import TexGovernance.Evidence.ResolvedIndex
import TexGovernance.Institutional.Inheritance
import TexGovernance.Learning.ClippedMovement
import TexGovernance.Learning.JustifiedDirection
import TexGovernance.C2pa.ContextTree
