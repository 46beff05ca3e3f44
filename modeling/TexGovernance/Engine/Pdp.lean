import Mathlib.Data.List.Dedup
import TexGovernance.Engine.Outcomes
import TexGovernance.Engine.Routing
import TexGovernance.Lib.Pipeline

/-!
# The caution holds and the policy decision point

The stages between the router and the precedent step that can turn a PERMIT into an ABSTAIN on
their own signal. What a hold reads from the request, its tracker or its calibration is an
argument; the metadata of the findings and the sealing of facts are left out.
-/

namespace TexGovernance.Engine
open PyStr PyDict PyFloat

structure SystemicLookaheadOutcome where
  exceeds : Bool
  predictiveRisk : ℚ
  reason : Str

structure RV4PathViolation where
  policyId : Str
  reason : Str

def systemicLookaheadFlag : Str := txt "systemic_lookahead_risk"
def rv4RecoverableFlag : Str := txt "rv4_recoverable_violation"

def lookaheadDraft (lookahead : SystemicLookaheadOutcome) (d : Draft) : Except PyErr Draft :=
  if !lookahead.exceeds then .ok d
  else do
    let finding ← Finding.make (txt "systemic.probguard")
      (txt "systemic_lookahead_predictive_risk") .warning lookahead.reason
    .ok { reasons := d.reasons ++ [lookahead.reason]
          uncertaintyFlags := d.uncertaintyFlags ++ [systemicLookaheadFlag]
          findings := d.findings ++ [finding]
          scores := d.scores.set (txt "systemic_lookahead") (clampUnit lookahead.predictiveRisk) }

def recoverableDraft (recoverable : List RV4PathViolation) (d : Draft) : Except PyErr Draft :=
  if recoverable.isEmpty then .ok d
  else do
    let findings ← recoverable.mapM fun v =>
      Finding.make (txt "contracts.rv4_path") (txt "rv4_recoverable:" ++ v.policyId) .warning
        v.reason
    .ok { reasons := d.reasons ++ recoverable.map (·.reason)
          uncertaintyFlags := d.uncertaintyFlags ++ [rv4RecoverableFlag]
          findings := d.findings ++ findings
          scores := d.scores.set (txt "rv4_recoverable") 1 }

def applyPredictiveHolds (casefold : Str → Str) (lookahead : SystemicLookaheadOutcome)
    (recoverable : List RV4PathViolation) (base : RoutingResult) : Except PyErr RoutingResult :=
  if base.verdict ≠ .permit then .ok base
  else if !lookahead.exceeds && recoverable.isEmpty then .ok base
  else do
    let d ← lookaheadDraft lookahead base.draft
    let d ← recoverableDraft recoverable d
    base.rebuild casefold .abstain d

inductive CadenceLevel where
  | clear
  | soft
  | hard
  deriving DecidableEq

structure CadenceAssessment where
  level : CadenceLevel
  reason : Str
  counterfactual : Str

def cadenceHoldFlag : Str := txt "action_cadence_soft_budget_exceeded"

def applyCadenceHold (casefold : Str → Str) (assessment : CadenceAssessment)
    (base : RoutingResult) : Except PyErr RoutingResult :=
  if base.verdict ≠ .permit then .ok base
  else if assessment.level = .clear then .ok base
  else do
    let soft := assessment.level = .soft
    let finding ← Finding.make (txt "deterministic.action_cadence")
      (if soft then txt "action_cadence_soft_hold" else txt "action_cadence_hard_hold")
      (if soft then .warning else .critical) assessment.reason
    base.rebuild casefold .abstain
      { reasons := base.reasons ++
          [assessment.reason, txt "Counterfactual: " ++ assessment.counterfactual]
        uncertaintyFlags := base.uncertaintyFlags ++ [cadenceHoldFlag]
        findings := base.findings ++ [finding]
        scores := base.scores.set (txt "action_cadence")
          (if assessment.level = .hard then 1 else clampUnit (1 / 2)) }

/-- What the spine reports for one request; `combined` holds the Ville
p-value, if there is one. -/
structure SpineSignal where
  acted : Bool
  combined : Option (Option ℚ)
  reason : Str

def riskSpineFlag : Str := txt "risk_spine_drift_breach"

def applyRiskSpine (casefold : Str → Str) (spine : Option SpineSignal) (base : RoutingResult) :
    Except PyErr RoutingResult :=
  match spine with
  | none => .ok base
  | some signal =>
    if !signal.acted then .ok base
    else if base.verdict ≠ .permit then .ok base
    else match signal.combined with
      | none => .error .assertionError
      | some villePValue => do
        let finding ← Finding.make (txt "engine.risk_spine") (txt "risk_spine_drift_breach") .warning
          signal.reason
        base.rebuild casefold .abstain
          { reasons := base.reasons ++ [signal.reason]
            uncertaintyFlags := base.uncertaintyFlags ++ [riskSpineFlag]
            findings := base.findings ++ [finding]
            scores := match villePValue with
              | none => base.scores
              | some p => base.scores.set (txt "risk_spine_ville_p") (clampUnit p) }

structure PQDurabilityAssessment where
  lowersVerdict : Bool
  reason : Str

def pqNonRepudiationFlag : Str := txt "pq_non_repudiation_unavailable"

def applyPqDurabilityHold (casefold : Str → Str) (assessment : PQDurabilityAssessment)
    (base : RoutingResult) : Except PyErr RoutingResult :=
  if base.verdict ≠ .permit then .ok base
  else if !assessment.lowersVerdict then .ok base
  else do
    let finding ← Finding.make (txt "pqcrypto.pq_durability")
      (txt "pq_non_repudiation_unavailable") .warning assessment.reason
    base.rebuild casefold .abstain
      { reasons := base.reasons ++ [assessment.reason]
        uncertaintyFlags := base.uncertaintyFlags ++ [pqNonRepudiationFlag]
        findings := base.findings ++ [finding]
        scores := base.scores.set (txt "pq_durable") 0 }

structure ConformalRiskGate where
  enabled : Bool
  certified : Bool
  lambdaHat : ℚ
  alpha : ℚ
  deltaPermit : ℚ
  riskUcb : ℚ
  riskEstimand : Str

/-- `CRCGateResult`, without the descriptive certificate. -/
structure CRCGateResult where
  verdict : Verdict
  demoted : Bool
  reasons : List Str
  uncertaintyFlags : List Str

def crcDemotionReason (gate : ConformalRiskGate) (finalScore : ℚ) : Str :=
  if gate.certified then
    txt "CRC gate: PERMIT demoted to ABSTAIN — fused score " ++ fixed3 finalScore ++
      txt " exceeds certified permit cutoff " ++ fixed3 gate.lambdaHat ++
      txt " (risk budget alpha=" ++ fixed3 gate.alpha ++ txt ")."
  else
    txt "CRC gate: PERMIT demoted to ABSTAIN — no permit cutoff satisfies the risk budget alpha=" ++
      fixed3 gate.alpha ++ txt " at confidence " ++ fixed3 (1 - gate.deltaPermit) ++
      txt " on the calibration set."

def ConformalRiskGate.apply (gate : ConformalRiskGate) (verdict : Verdict) (finalScore : ℚ) :
    CRCGateResult :=
  if !gate.enabled ∨ verdict ≠ .permit then ⟨verdict, false, [], []⟩
  else if gate.certified ∧ finalScore ≤ gate.lambdaHat then
    ⟨.permit, false,
      [txt "CRC gate: PERMIT certified — fused score " ++ fixed3 finalScore ++ txt " <= cutoff " ++
        fixed3 gate.lambdaHat ++ txt "; false-permit rate bounded <= " ++ fixed3 gate.riskUcb ++
        txt " at confidence " ++ fixed3 (1 - gate.deltaPermit) ++ txt " (estimand=" ++
        gate.riskEstimand ++ txt ")."], []⟩
  else ⟨.abstain, true, [crcDemotionReason gate finalScore], [txt "crc_permit_region_exceeded"]⟩

def applyCrcDemotion (casefold : Str → Str) (base : RoutingResult) (crcReasons : List Str)
    (crcUncertaintyFlags : List Str) : Except PyErr RoutingResult :=
  base.rebuild casefold .abstain
    { base.draft with
      reasons := base.reasons ++ crcReasons
      uncertaintyFlags := base.uncertaintyFlags ++ crcUncertaintyFlags }

def crcStage (casefold : Str → Str) (gate : ConformalRiskGate) (base : RoutingResult) :
    Except PyErr RoutingResult :=
  let result := gate.apply base.verdict base.finalScore
  if result.demoted then applyCrcDemotion casefold base result.reasons result.uncertaintyFlags
  else .ok base

/-!
## Precedent auto-resolution (`engine/precedent_influence.py`)

The one step that moves a verdict away from caution. Each retrieved precedent
comes with the resolution `_parse` reads from its metadata, and the ledger
with the answer its append gives. `str.lower` is a parameter.
-/

structure PrecedentResolution where
  tenantId : Str
  resolutionVerdict : Str
  resolvedByHuman : Bool
  resolvedAt : ℤ
  confidence : ℚ
  recordHash : Str

structure RetrievedPrecedent where
  actionType : Option Str
  channel : Option Str
  environment : Option Str
  resolution : Option PrecedentResolution

/-- What the step reads besides the result: the policy's switch and
thresholds, the request, the retrieved precedents and the ledger (`none` when
there is none, otherwise whether its append returns a record). -/
structure AutoresolveContext where
  precedentAutoresolve : Bool
  minCount : ℕ
  freshnessDays : ℕ
  minConfidence : ℚ
  agentTenant : Option Str
  actionType : Str
  channel : Str
  environment : Str
  requestedAt : ℤ
  precedents : List RetrievedPrecedent
  decisionLedger : Option Bool

def precedentAutoresolveFlag : Str := txt "precedent_autoresolved"

def discretionaryAbstainFlags : List Str :=
  [txt "borderline_fused_score", txt "low_confidence_semantic_dimension",
    txt "weak_semantic_evidence", txt "confidence_below_policy_minimum", txt "cold_start",
    txt "no_behavioral_history"]

def requestTenant (agentTenant : Option Str) : Option Str :=
  match agentTenant with
  | none => none
  | some tenant => if strip tenant = [] then none else some (strip tenant)

section Autoresolve

variable (casefold lower : Str → Str)

def edgeClassSignature (actionType channel environment : Option Str) : Option (Str × Str × Str) :=
  match actionType, channel, environment with
  | some a, some c, some e => some (lower (strip a), lower (strip c), lower (strip e))
  | _, _, _ => none

def microsecondsPerDay : ℤ := 24 * 60 * 60 * 1000000

def isSurvivor (ctx : AutoresolveContext) (tenant : Str) (edge : Str × Str × Str)
    (precedent : RetrievedPrecedent) (res : PrecedentResolution) : Bool :=
  res.resolvedByHuman && res.tenantId = tenant &&
    edgeClassSignature lower precedent.actionType precedent.channel precedent.environment =
      some edge &&
    ctx.minConfidence ≤ res.confidence && res.resolvedAt ≤ ctx.requestedAt &&
    ctx.requestedAt - res.resolvedAt ≤ ctx.freshnessDays * microsecondsPerDay

def eligibleSurvivors (ctx : AutoresolveContext) (tenant : Str) (edge : Str × Str × Str) :
    List PrecedentResolution :=
  ctx.precedents.filterMap fun precedent =>
    match precedent.resolution with
    | none => none
    | some res => if isSurvivor lower ctx tenant edge precedent res then some res else none

def joinComma (xs : List Str) : Str := (xs.intersperse (txt ", ")).flatten

def precedentCitation (ctx : AutoresolveContext) (tenant : Str) (edge : Str × Str × Str)
    (survivors : List PrecedentResolution) : Str :=
  let recordHashes := (survivors.map (·.recordHash)).dedup.mergeSort fun a b => decide (a ≤ b)
  txt "precedent auto-resolve: ABSTAIN→PERMIT on edge-class " ++
    edge.1 ++ txt "/" ++ edge.2.1 ++ txt "/" ++ edge.2.2 ++ txt " for tenant " ++ tenant ++
    txt " from " ++ (Nat.toDigits 10 survivors.length).map cp ++
    txt " consistent prior human PERMIT resolution(s) (min " ++
    (Nat.toDigits 10 ctx.minCount).map cp ++ txt "); driving record_hash(es): " ++
    joinComma recordHashes ++ txt "; structural floor untouched"

def applyPrecedentAutoresolve (ctx : AutoresolveContext) (base : RoutingResult) :
    Except PyErr RoutingResult :=
  if !ctx.precedentAutoresolve then .ok base
  else if base.verdict ≠ .abstain then .ok base
  else match ctx.decisionLedger with
    | none => .ok base
    | some appendReturns =>
      if base.uncertaintyFlags = [] ∨ ¬ base.uncertaintyFlags ⊆ discretionaryAbstainFlags then
        .ok base
      else match requestTenant ctx.agentTenant,
          edgeClassSignature lower (some ctx.actionType) (some ctx.channel)
            (some ctx.environment) with
        | some tenant, some edge =>
          let survivors := eligibleSurvivors lower ctx tenant edge
          if survivors.length < ctx.minCount then .ok base
          -- the set of survivor verdicts must be {"PERMIT"}
          else if survivors = [] ∨ ¬ ∀ res ∈ survivors, res.resolutionVerdict = txt "PERMIT" then
            .ok base
          else if !appendReturns then .ok base
          else base.rebuild casefold .permit
            { reasons := base.reasons ++ [precedentCitation ctx tenant edge survivors]
              uncertaintyFlags := base.uncertaintyFlags ++ [precedentAutoresolveFlag]
              findings := base.findings
              scores := base.scores.set (txt "precedent_autoresolve") 1 }
        | _, _ => .ok base

end Autoresolve

/-!
## The policy decision point (`engine/pdp.py`, `domain/decision.py`)

`PolicyDecisionPoint.evaluate` from the outputs of its components on. Latencies, fingerprints,
transcripts and seals only observe the result and are left out.
-/

structure ComponentOutputs where
  deterministicFindings : List Finding
  asiFindings : List AsiFinding
  contractOutcome : ContractEvaluationOutcome
  pathOutcome : PathPolicyOutcome
  structuralFloor : StructuralFloorResult
  baseRoutingResult : RoutingResult
  lookahead : SystemicLookaheadOutcome
  recoverable : List RV4PathViolation
  cadence : CadenceAssessment
  riskSpine : Option SpineSignal
  pqDurability : PQDurabilityAssessment
  crcGate : ConformalRiskGate
  autoresolve : AutoresolveContext

def hardViolation (o : ComponentOutputs) : Bool :=
  o.contractOutcome.hasHardViolation || o.pathOutcome.hasBlock || o.structuralFloor.fired

def textOr (value : Option Str) (default : Str) : Str :=
  match value with
  | some s => if s = [] then default else s
  | none => default

def firedReasons (o : ComponentOutputs) : List Str :=
  (if o.contractOutcome.hasHardViolation then
    [textOr o.contractOutcome.forbidReason (txt "behavioral contract hard violation")] else []) ++
  (if o.pathOutcome.hasBlock then
    [textOr o.pathOutcome.forbidReason (txt "path policy hard violation (block)")] else []) ++
  (if o.structuralFloor.fired then o.structuralFloor.denies.map (·.reason.val) else [])

def hardReasons (o : ComponentOutputs) : List Str :=
  if firedReasons o = [] then [txt "structural hard violation"] else firedReasons o

def hardScores (o : ComponentOutputs) : Dict Str UnitScore :=
  let scores : Dict Str UnitScore := Dict.empty
  let scores := if o.contractOutcome.hasHardViolation then scores.set (txt "contracts") 1 else scores
  let scores := if o.pathOutcome.hasBlock then scores.set (txt "path_policy") 1 else scores
  let scores := if o.structuralFloor.fired then
      o.structuralFloor.denies.foldl
        (fun acc deny => acc.set (txt "structural_" ++ deny.specialist) 1)
        (scores.set (txt "structural_floor") 1)
    else scores
  if scores.items = [] then scores.set (txt "contracts") 1 else scores

def buildHardForbidRoutingResult (casefold : Str → Str) (o : ComponentOutputs) :
    Except PyErr RoutingResult :=
  RoutingResult.make casefold .forbid 1 1 (hardReasons o)
    (o.deterministicFindings ++ o.contractOutcome.findings ++ o.pathOutcome.findings ++
      o.structuralFloor.findings)
    (hardScores o) [] o.asiFindings false

def mergeSoftContractSignals (casefold : Str → Str) (outcome : ContractEvaluationOutcome)
    (base : RoutingResult) : Except PyErr RoutingResult :=
  let d : Draft :=
    { reasons := base.reasons
      uncertaintyFlags := base.uncertaintyFlags ++ outcome.softUncertaintyFlags
      findings := base.findings ++ outcome.findings
      scores := base.scores.set (txt "contracts_soft")
        (clampUnit (1 / 2 + 1 / 10 * outcome.findings.length)) }
  if base.verdict = .permit then
    base.rebuild casefold .abstain
      { d with
        reasons := base.reasons ++ [txt "behavioral contract soft violation — promoted to ABSTAIN"] }
  else base.rebuild casefold base.verdict d

def mergePathSignals (casefold : Str → Str) (outcome : PathPolicyOutcome) (base : RoutingResult) :
    Except PyErr RoutingResult :=
  let d : Draft :=
    { reasons := base.reasons
      uncertaintyFlags := base.uncertaintyFlags ++ outcome.softUncertaintyFlags
      findings := base.findings ++ outcome.findings
      scores := if outcome.violatedPolicyIds = [] then base.scores
        else base.scores.set (txt "path_policy") (clampUnit outcome.violationScore) }
  if outcome.hasWarn ∧ base.verdict = .permit then
    base.rebuild casefold .abstain
      { d with
        reasons := base.reasons ++ [txt "path policy soft violation (warn) — promoted to ABSTAIN"] }
  else base.rebuild casefold base.verdict d

def softContractStage (casefold : Str → Str) (outcome : ContractEvaluationOutcome)
    (base : RoutingResult) : Except PyErr RoutingResult :=
  if outcome.hasSoftViolation then mergeSoftContractSignals casefold outcome base else .ok base

def pathStage (casefold : Str → Str) (outcome : PathPolicyOutcome) (base : RoutingResult) :
    Except PyErr RoutingResult :=
  if outcome.checked ∧ (outcome.hasWarn ∨ outcome.findings ≠ []) then
    mergePathSignals casefold outcome base
  else .ok base

/-- The stages between the router and the precedent step, in their order. -/
def stagesAfterRouter (casefold : Str → Str) (o : ComponentOutputs) :
    List (Pipeline.Stage PyErr RoutingResult) :=
  [softContractStage casefold o.contractOutcome,
    pathStage casefold o.pathOutcome,
    applyPredictiveHolds casefold o.lookahead o.recoverable,
    applyCadenceHold casefold o.cadence,
    applyRiskSpine casefold o.riskSpine,
    applyPqDurabilityHold casefold o.pqDurability,
    crcStage casefold o.crcGate]

structure Decision where
  verdict : Verdict
  confidence : UnitScore
  finalScore : UnitScore
  scores : Dict Str UnitScore
  findings : List Finding
  reasons : List Str
  uncertaintyFlags : List Str

def validateScores (scores : Dict Str UnitScore) : Except PyErr (Dict Str UnitScore) :=
  scores.items.foldlM
    (fun normalized e =>
      if strip e.1 = [] then .error .valueError else .ok (normalized.set (strip e.1) e.2))
    Dict.empty

def validateTextList (values : List Str) : Except PyErr (List Str) :=
  values.foldlM
    (fun normalized value =>
      if strip value = [] then .error .valueError
      else if strip value ∈ normalized then .ok normalized
      else .ok (normalized ++ [strip value]))
    []

/-- `_build_decision`, with the validators of the fields it takes from the
routing result. -/
def buildDecision (r : RoutingResult) : Except PyErr Decision := do
  let scores ← validateScores r.scores
  let reasons ← validateTextList r.reasons
  let uncertaintyFlags ← validateTextList r.uncertaintyFlags
  if r.verdict = .abstain ∧ uncertaintyFlags = [] then .error .valueError
  else if r.verdict = .forbid ∧ ¬ (0 < r.finalScore.val ∨ r.findings ≠ [] ∨ reasons ≠ []) then
    .error .valueError
  else
    .ok { verdict := r.verdict, confidence := r.confidence, finalScore := r.finalScore, scores,
          findings := r.findings, reasons, uncertaintyFlags }

section Evaluate

variable (casefold lower : Str → Str)

def routeOrForbid (o : ComponentOutputs) : Except PyErr RoutingResult :=
  if hardViolation o then buildHardForbidRoutingResult casefold o
  else do
    let r ← softContractStage casefold o.contractOutcome o.baseRoutingResult
    let r ← pathStage casefold o.pathOutcome r
    let r ← applyPredictiveHolds casefold o.lookahead o.recoverable r
    let r ← applyCadenceHold casefold o.cadence r
    let r ← applyRiskSpine casefold o.riskSpine r
    applyPqDurabilityHold casefold o.pqDurability r

def evaluateRouting (o : ComponentOutputs) : Except PyErr RoutingResult := do
  let r ← routeOrForbid casefold o
  let r ← crcStage casefold o.crcGate r
  applyPrecedentAutoresolve casefold lower o.autoresolve r

def evaluate (o : ComponentOutputs) : Except PyErr Decision := do
  let r ← evaluateRouting casefold lower o
  buildDecision r

end Evaluate

end TexGovernance.Engine
