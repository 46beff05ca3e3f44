import TexGovernance.Engine.Routing
import TexGovernance.Lib.KeepFirst
import TexGovernance.Lib.Pipeline

/-!
# The agent streams and the decision router (`agent/`, `domain/agent_signal.py`)

What the router's ladder and its flags read of the three agent signals, as the evaluators build
them. What the stores answer about an agent is an argument; risk scores, confidences, findings
and reasons are left out.
-/

namespace TexGovernance.Engine
open PyStr PyFloat KeepFirst

abbrev Flags := { fs : List Str // ∀ s ∈ fs, IsClean s }

instance : Inhabited Flags := ⟨[], clean_nil⟩

/-- `_normalize_string_tuple` on a sequence of strings. -/
def normalizeFlags (casefold : Str → Str) (value : List Str) : Except PyErr Flags :=
  match h : normalizeStringSequences casefold value with
  | .ok fs => .ok ⟨fs, normalizeStringSequences_clean h⟩
  | .error e => .error e

inductive AgentLifecycleStatus where
  | pending
  | active
  | quarantined
  | sleeping
  | revoked
  deriving DecidableEq

def AgentLifecycleStatus.value : AgentLifecycleStatus → Str
  | .pending => txt "PENDING"
  | .active => txt "ACTIVE"
  | .quarantined => txt "QUARANTINED"
  | .sleeping => txt "SLEEPING"
  | .revoked => txt "REVOKED"

structure AgentIdentitySignal where
  lifecycleStatus : Str
  uncertaintyFlags : Flags

structure AgentIdentity where
  lifecycleStatus : AgentLifecycleStatus
  attestations : List Bool
  ageSeconds : ℚ

def lifecycleFlags : AgentLifecycleStatus → List Str
  | .quarantined => [txt "agent_quarantined"]
  | .sleeping => [txt "agent_sleeping"]
  | .pending => [txt "agent_pending"]
  | .active | .revoked => []

def freshAgentSeconds : ℚ := 60 * 60

def identityFlags (agent : AgentIdentity) : List Str :=
  lifecycleFlags agent.lifecycleStatus ++
  (if agent.attestations = [] then [txt "no_attestations"]
    else if agent.attestations.all id then [txt "attestations_expired"] else []) ++
  (if agent.ageSeconds < freshAgentSeconds then [txt "fresh_agent"] else [])

def evaluateIdentity (casefold : Str → Str) (agent : AgentIdentity) :
    Except PyErr AgentIdentitySignal := do
  let uncertaintyFlags ← normalizeFlags casefold (identityFlags agent)
  return { lifecycleStatus := agent.lifecycleStatus.value, uncertaintyFlags }

def neutralIdentitySignal : AgentIdentitySignal := ⟨txt "ACTIVE", default⟩

structure CapabilitySignal where
  uncertaintyFlags : Flags
  violatedDimensions : Flags

def CapabilitySignal.hasViolations (signal : CapabilitySignal) : Bool :=
  !signal.violatedDimensions.val.isEmpty

structure SurfaceAnswers where
  isUnrestricted : Bool
  actionPermitted : Bool
  channelPermitted : Bool
  environmentPermitted : Bool
  recipientPermitted : Bool

def violatedBy (surface : SurfaceAnswers) : List Str :=
  (if surface.actionPermitted then [] else [txt "action_type"]) ++
  (if surface.channelPermitted then [] else [txt "channel"]) ++
  (if surface.environmentPermitted then [] else [txt "environment"]) ++
  (if surface.recipientPermitted then [] else [txt "recipient_domain"])

def capabilityFlags (surface : SurfaceAnswers) : List Str :=
  if violatedBy surface ≠ [] then []
  else if surface.isUnrestricted then [txt "agent_unrestricted_surface"]
  else []

def evaluateCapability (casefold : Str → Str) (surface : SurfaceAnswers) :
    Except PyErr CapabilitySignal := do
  let uncertaintyFlags ← normalizeFlags casefold (capabilityFlags surface)
  let violatedDimensions ← normalizeFlags casefold (violatedBy surface)
  return { uncertaintyFlags, violatedDimensions }

def neutralCapabilitySignal : CapabilitySignal := ⟨default, default⟩

structure BehavioralSignal where
  coldStart : Bool
  forbidStreak : ℕ
  uncertaintyFlags : Flags

structure TenantContentBaselineLookup where
  sampleSize : ℕ
  noveltyScore : ℚ
  recipientDomainSeen : Bool
  coldStart : Bool

structure BehavioralHistory where
  sampleSize : ℕ
  forbidStreak : ℕ
  recentAbstainRate : ℚ
  novelAction : Bool
  novelChannel : Bool
  hasRecipient : Bool
  tenantLookup : TenantContentBaselineLookup

def tenantBaselineFlags (tenantLookup : TenantContentBaselineLookup) : List Str :=
  if tenantLookup.sampleSize = 0 then [txt "tenant_baseline_cold_start"]
  else [txt "tenant_baseline_thin"]

/-- `_fold_tenant_signals`. -/
def tenantFlags (history : BehavioralHistory) : List Str :=
  let tenantLookup := history.tenantLookup
  if tenantLookup.coldStart then tenantBaselineFlags tenantLookup
  else
    (if 85 / 100 ≤ tenantLookup.noveltyScore then [txt "tenant_novel_content"]
      else if 65 / 100 ≤ tenantLookup.noveltyScore then [txt "tenant_content_unusual"] else []) ++
    (if history.hasRecipient && !tenantLookup.recipientDomainSeen then
      [txt "tenant_novel_recipient_domain"] else [])

def coldStartFlags (history : BehavioralHistory) : List Str :=
  [txt "cold_start", txt "no_behavioral_history"] ++
    if history.tenantLookup.coldStart then tenantBaselineFlags history.tenantLookup else []

def behavioralFlags (history : BehavioralHistory) : List Str :=
  (if 3 ≤ history.forbidStreak then [txt "forbid_streak"]
    else if history.forbidStreak = 2 then [txt "recent_forbid_streak"] else []) ++
  (if 1 / 2 < history.recentAbstainRate then [txt "high_recent_abstain_rate"] else []) ++
  tenantFlags history ++
  (if 25 ≤ history.sampleSize then [] else [txt "limited_behavioral_history"]) ++
  (if history.novelAction then [txt "novel_action_for_agent"] else []) ++
  (if history.novelChannel then [txt "novel_channel_for_agent"] else [])

def evaluateBehavioral (casefold : Str → Str) (history : BehavioralHistory) :
    Except PyErr BehavioralSignal :=
  if history.sampleSize = 0 then do
    let uncertaintyFlags ← normalizeFlags casefold (coldStartFlags history)
    return { coldStart := true, forbidStreak := 0, uncertaintyFlags }
  else do
    let uncertaintyFlags ← normalizeFlags casefold (behavioralFlags history)
    return { coldStart := false, forbidStreak := history.forbidStreak, uncertaintyFlags }

def neutralBehavioralSignal : BehavioralSignal := ⟨false, 0, default⟩

structure AgentEvaluationBundle where
  agentPresent : Bool
  identity : AgentIdentitySignal
  capability : CapabilitySignal
  behavioral : BehavioralSignal

def AgentEvaluationBundle.hasCapabilityViolations (bundle : AgentEvaluationBundle) : Bool :=
  bundle.capability.hasViolations

def AgentEvaluationBundle.allUncertaintyFlags (casefold : Str → Str)
    (bundle : AgentEvaluationBundle) : List Str :=
  keepFirst casefold (bundle.identity.uncertaintyFlags.val ++
    bundle.capability.uncertaintyFlags.val ++ bundle.behavioral.uncertaintyFlags.val)

structure EvaluableAgent where
  identity : AgentIdentity
  surface : SurfaceAnswers
  history : BehavioralHistory

def neutralBundle : AgentEvaluationBundle where
  agentPresent := false
  identity := neutralIdentitySignal
  capability := neutralCapabilitySignal
  behavioral := neutralBehavioralSignal

/-- `AgentEvaluationSuite.evaluate`; without an agent id there is no agent. -/
def evaluateAgent (casefold : Str → Str) (agent : Option EvaluableAgent) :
    Except PyErr AgentEvaluationBundle :=
  match agent with
  | none => .ok neutralBundle
  | some agent => do
    let identity ← evaluateIdentity casefold agent.identity
    let capability ← evaluateCapability casefold agent.surface
    let behavioral ← evaluateBehavioral casefold agent.history
    return { agentPresent := true, identity, capability, behavioral }

instance (s : Str) : Decidable (IsClean s) := inferInstanceAs (Decidable (_ ∧ _))

def agentFlagNames : List Str :=
  [txt "agent_quarantined", txt "agent_sleeping", txt "agent_pending", txt "no_attestations",
    txt "attestations_expired", txt "fresh_agent", txt "forbid_streak",
    txt "recent_forbid_streak", txt "high_recent_abstain_rate", txt "tenant_baseline_cold_start",
    txt "tenant_baseline_thin", txt "tenant_novel_content", txt "tenant_content_unusual",
    txt "tenant_novel_recipient_domain", txt "limited_behavioral_history",
    txt "novel_action_for_agent", txt "novel_channel_for_agent"]

theorem agentFlagNames_clean : ∀ s ∈ agentFlagNames, IsClean s := by
  decide

theorem identityFlags_names (agent : AgentIdentity) : identityFlags agent ⊆ agentFlagNames := by
  unfold identityFlags
  rw [List.append_subset, List.append_subset]
  refine ⟨⟨?_, ?_⟩, ?_⟩
  · cases agent.lifecycleStatus <;> simp [lifecycleFlags, agentFlagNames]
  · split
    · simp [agentFlagNames]
    · split
      · simp [agentFlagNames]
      · exact List.nil_subset _
  · split
    · simp [agentFlagNames]
    · exact List.nil_subset _

theorem tenantFlags_names (history : BehavioralHistory) : tenantFlags history ⊆ agentFlagNames := by
  unfold tenantFlags tenantBaselineFlags
  simp only
  split
  · split
    · simp [agentFlagNames]
    · simp [agentFlagNames]
  · rw [List.append_subset]
    constructor
    · split
      · simp [agentFlagNames]
      · split
        · simp [agentFlagNames]
        · exact List.nil_subset _
    · split
      · simp [agentFlagNames]
      · exact List.nil_subset _

theorem behavioralFlags_names (history : BehavioralHistory) :
    behavioralFlags history ⊆ agentFlagNames := by
  unfold behavioralFlags
  simp only [List.append_subset]
  refine ⟨⟨⟨⟨⟨?_, ?_⟩, tenantFlags_names history⟩, ?_⟩, ?_⟩, ?_⟩
  · split
    · simp [agentFlagNames]
    · split
      · simp [agentFlagNames]
      · exact List.nil_subset _
  · split
    · simp [agentFlagNames]
    · exact List.nil_subset _
  · split
    · exact List.nil_subset _
    · simp [agentFlagNames]
  · split
    · simp [agentFlagNames]
    · exact List.nil_subset _
  · split
    · simp [agentFlagNames]
    · exact List.nil_subset _

section Stamps

variable {casefold : Str → Str}

theorem normalizeFrom_eq_keepFirst (seen : List Str) {value : List Str}
    (h : ∀ s ∈ value, IsClean s) :
    normalizeFrom casefold seen value = .ok (keepFirstFrom casefold seen value) := by
  induction value generalizing seen with
  | nil => rfl
  | cons item rest ih =>
    have hitem := h item (List.mem_cons_self ..)
    have hrest : ∀ s ∈ rest, IsClean s := fun s hs => h s (List.mem_cons_of_mem _ hs)
    unfold normalizeFrom keepFirstFrom
    simp only
    rw [hitem.1, if_neg hitem.2]
    split
    · exact ih seen hrest
    · rw [ih _ hrest]
      rfl

theorem normalizeFlags_val {value : List Str} {flags : Flags}
    (h : normalizeFlags casefold value = .ok flags) :
    normalizeStringSequences casefold value = .ok flags.val := by
  unfold normalizeFlags at h
  split at h
  · rename_i hvalue
    rw [← Except.ok.inj h]
    exact hvalue
  · cases h

theorem normalizeFlags_covers {value : List Str} {flags : Flags}
    (h : normalizeFlags casefold value = .ok flags) (hnames : value ⊆ agentFlagNames) :
    Covers casefold value flags.val := by
  have hclean : ∀ s ∈ value, IsClean s := fun s hs => agentFlagNames_clean s (hnames hs)
  have hkept := normalizeFlags_val h
  unfold normalizeStringSequences at hkept
  rw [normalizeFrom_eq_keepFirst [] hclean] at hkept
  rw [← Except.ok.inj hkept]
  exact keepFirst_covers value

theorem evaluateAgent_present {agent : Option EvaluableAgent} {bundle : AgentEvaluationBundle}
    (h : evaluateAgent casefold agent = .ok bundle) (hpresent : bundle.agentPresent = true) :
    ∃ a, agent = some a ∧
      bundle.identity.lifecycleStatus = a.identity.lifecycleStatus.value ∧
      Covers casefold (identityFlags a.identity) (bundle.allUncertaintyFlags casefold) ∧
      (0 < bundle.behavioral.forbidStreak →
        bundle.behavioral.forbidStreak = a.history.forbidStreak ∧
        Covers casefold (behavioralFlags a.history) (bundle.allUncertaintyFlags casefold)) := by
  cases agent with
  | none =>
    rw [← Except.ok.inj h] at hpresent
    cases hpresent
  | some a =>
    obtain ⟨identity, hidentity, h⟩ := Pipeline.bind_ok h
    obtain ⟨capability, -, h⟩ := Pipeline.bind_ok h
    obtain ⟨behavioral, hbehavioral, h⟩ := Pipeline.bind_ok h
    rw [← Except.ok.inj h]
    obtain ⟨flags, hflags, hidentity⟩ := Pipeline.bind_ok hidentity
    obtain rfl := Except.ok.inj hidentity
    have hkept := @keepFirst_covers _ _ _ casefold (flags.val ++
      capability.uncertaintyFlags.val ++ behavioral.uncertaintyFlags.val)
    refine ⟨a, rfl, rfl, ?_, ?_⟩
    · refine (normalizeFlags_covers hflags (identityFlags_names _)).trans
        (Covers.trans (Covers.of_subset ?_) hkept)
      exact fun s hs => List.mem_append_left _ (List.mem_append_left _ hs)
    · intro hstreak
      unfold evaluateBehavioral at hbehavioral
      split at hbehavioral
      · obtain ⟨behaviour, -, hbehavioral⟩ := Pipeline.bind_ok hbehavioral
        rw [← Except.ok.inj hbehavioral] at hstreak
        cases hstreak
      · obtain ⟨behaviour, hbehaviour, hbehavioral⟩ := Pipeline.bind_ok hbehavioral
        obtain rfl := Except.ok.inj hbehavioral
        refine ⟨rfl, (normalizeFlags_covers hbehaviour (behavioralFlags_names _)).trans
          (Covers.trans (Covers.of_subset ?_) hkept)⟩
        exact List.subset_append_right _ _

end Stamps

end TexGovernance.Engine

/-!
## The decision router (`engine/router.py`, `specialists/base.py`, `semantic/schema.py`)

The verdict ladder with its selective-risk rule, the flags it stamps and the result it builds.
The fused score and confidence, the reasons, the scores and the ASI findings are arguments of
`route`.
-/

namespace TexGovernance.Engine
open PyStr PyDict PyFloat KeepFirst

structure SelectiveRiskRule where
  semanticOverrideConfidence : ℚ
  semanticOverrideDimension : ℚ
  semanticOverrideEvidence : ℚ
  lowEvidenceFloor : ℚ
  specialistAbstainRisk : ℚ
  structuralSpecialistRisk : ℚ
  agentForbidStreak : ℕ
  agentColdStartFraction : ℚ
  agentPendingFraction : ℚ
  structuralSpecialists : List Str

def defaultStructuralSpecialists : List Str :=
  [txt "clawguard", txt "mcpshield", txt "planguard", txt "mage", txt "agentarmor", txt "argus",
    txt "attriguard", txt "vigil"]

def defaultSelectiveRiskRule : SelectiveRiskRule where
  semanticOverrideConfidence := 85 / 100
  semanticOverrideDimension := 90 / 100
  semanticOverrideEvidence := 40 / 100
  lowEvidenceFloor := 25 / 100
  specialistAbstainRisk := 60 / 100
  structuralSpecialistRisk := 30 / 100
  agentForbidStreak := 3
  agentColdStartFraction := 8 / 10
  agentPendingFraction := 5 / 10
  structuralSpecialists := defaultStructuralSpecialists

structure DeterministicGateResult where
  findings : List Finding
  blocked : Bool

structure SpecialistResult where
  specialistName : Str
  riskScore : UnitScore
  matchedPolicyClauseIds : List Str
  uncertaintyFlags : Flags

def maxRiskScore (specialistBundle : List SpecialistResult) : ℚ :=
  (specialistBundle.map fun result => result.riskScore.val).foldr max 0

def specialistFlags (casefold : Str → Str) (specialistBundle : List SpecialistResult) : List Str :=
  keepFirst casefold (specialistBundle.flatMap fun result => result.uncertaintyFlags.val)

structure SemanticDimensionResult where
  score : UnitScore
  confidence : UnitScore

def SemanticDimensionResult.isLowConfidence (result : SemanticDimensionResult) : Bool :=
  result.confidence.val < 1 / 2

structure SemanticVerdictRecommendation where
  verdict : Verdict
  confidence : UnitScore
  uncertaintyFlags : Flags

structure SemanticAnalysis where
  dimensionResults : List SemanticDimensionResult
  recommendedVerdict : SemanticVerdictRecommendation
  evidenceSufficiency : UnitScore
  uncertaintyFlags : Flags

def SemanticAnalysis.maxDimensionScore (analysis : SemanticAnalysis) : ℚ :=
  (analysis.dimensionResults.map fun result => result.score.val).foldr max 0

def SemanticAnalysis.hasLowConfidenceDimension (analysis : SemanticAnalysis) : Bool :=
  analysis.dimensionResults.any (·.isLowConfidence)

structure PolicyThresholds where
  permitThreshold : UnitScore
  forbidThreshold : UnitScore
  minimumConfidence : UnitScore
  permit_lt_forbid : permitThreshold.val < forbidThreshold.val

def defaultThresholds : PolicyThresholds where
  permitThreshold := ⟨34 / 100, by norm_num⟩
  forbidThreshold := ⟨72 / 100, by norm_num⟩
  minimumConfidence := ⟨62 / 100, by norm_num⟩
  permit_lt_forbid := by norm_num

structure RouterInputs where
  deterministicResult : DeterministicGateResult
  specialistBundle : List SpecialistResult
  semanticAnalysis : SemanticAnalysis
  policy : PolicyThresholds
  agentBundle : AgentEvaluationBundle

/-- What `route` computes before it decides. -/
structure FusedEvidence where
  finalScore : UnitScore
  confidence : UnitScore
  reasons : List Str
  findings : List Finding
  scores : Dict Str UnitScore
  asiFindings : List AsiFinding

section Ladder

variable (rule : SelectiveRiskRule) (inputs : RouterInputs) (finalScore confidence : ℚ)

def semanticDominance : Bool :=
  let recommendation := inputs.semanticAnalysis.recommendedVerdict
  recommendation.verdict = .forbid &&
    rule.semanticOverrideConfidence ≤ recommendation.confidence.val &&
    rule.semanticOverrideDimension ≤ inputs.semanticAnalysis.maxDimensionScore &&
    rule.semanticOverrideEvidence ≤ inputs.semanticAnalysis.evidenceSufficiency.val

def semanticDominanceOverrideFired : Bool :=
  if inputs.deterministicResult.blocked then false else semanticDominance rule inputs

def isBorderline : Bool :=
  inputs.policy.permitThreshold.val < finalScore && finalScore < inputs.policy.forbidThreshold.val

def isSpecialistRisk : Bool :=
  rule.specialistAbstainRisk ≤ maxRiskScore inputs.specialistBundle &&
    finalScore < inputs.policy.forbidThreshold.val

def isStructuralSpecialist : Bool :=
  inputs.specialistBundle.any fun spec =>
    spec.specialistName ∈ rule.structuralSpecialists &&
      rule.structuralSpecialistRisk ≤ spec.riskScore.val &&
      !spec.matchedPolicyClauseIds.isEmpty &&
      finalScore < inputs.policy.forbidThreshold.val

def lacksRetrievalContext (casefold : Str → Str) (uncertaintyFlags : List Str) : Bool :=
  (uncertaintyFlags.any fun flag => casefold flag = txt "no_retrieval_context") &&
    inputs.policy.permitThreshold.val ≤ finalScore

def isForbidStreak : Bool :=
  inputs.agentBundle.agentPresent &&
    rule.agentForbidStreak ≤ inputs.agentBundle.behavioral.forbidStreak

def isColdStart : Bool :=
  inputs.agentBundle.agentPresent && inputs.agentBundle.behavioral.coldStart &&
    inputs.policy.permitThreshold.val * rule.agentColdStartFraction ≤ finalScore

def isPendingAgent : Bool :=
  inputs.agentBundle.agentPresent &&
    inputs.agentBundle.identity.lifecycleStatus = txt "PENDING" &&
    inputs.policy.permitThreshold.val * rule.agentPendingFraction ≤ finalScore

/-- `_should_abstain`, its tests in their order. -/
def shouldAbstain (casefold : Str → Str) (uncertaintyFlags : List Str) : Bool :=
  inputs.semanticAnalysis.recommendedVerdict.verdict = .abstain ||
  confidence < inputs.policy.minimumConfidence.val ||
  inputs.semanticAnalysis.hasLowConfidenceDimension ||
  (inputs.semanticAnalysis.evidenceSufficiency.val < rule.lowEvidenceFloor &&
    inputs.policy.permitThreshold.val ≤ finalScore) ||
  isSpecialistRisk rule inputs finalScore ||
  isStructuralSpecialist rule inputs finalScore ||
  lacksRetrievalContext inputs finalScore casefold uncertaintyFlags ||
  isBorderline inputs finalScore ||
  isForbidStreak rule inputs ||
  isColdStart rule inputs finalScore ||
  isPendingAgent rule inputs finalScore

def forcesAbstain : Bool :=
  inputs.agentBundle.agentPresent &&
    inputs.agentBundle.identity.lifecycleStatus ∈ [txt "QUARANTINED", txt "SLEEPING"]

def violatesCapability : Bool :=
  inputs.agentBundle.agentPresent && inputs.agentBundle.hasCapabilityViolations

def determineVerdict (casefold : Str → Str) (uncertaintyFlags : List Str) : Verdict :=
  let recommended := inputs.semanticAnalysis.recommendedVerdict.verdict
  -- R0: what is proved over structure
  if inputs.deterministicResult.blocked then .forbid
  else if forcesAbstain inputs then .abstain
  else if violatesCapability inputs then .forbid
  -- R1 and R2: the semantic and the score escalation
  else if semanticDominance rule inputs then .forbid
  else if recommended = .forbid ∧ inputs.policy.permitThreshold.val ≤ finalScore then .forbid
  else if inputs.policy.forbidThreshold.val ≤ finalScore then .forbid
  -- R3
  else if shouldAbstain rule inputs finalScore confidence casefold uncertaintyFlags then .abstain
  -- R4
  else if finalScore ≤ inputs.policy.permitThreshold.val ∧
      inputs.policy.minimumConfidence.val ≤ confidence ∧ recommended = .permit then .permit
  else .abstain

/-- The flags `_build_uncertainty_flags` hands to its `add`, in their order. -/
def emittedFlags (casefold : Str → Str) (overrideFired : Bool) : List Str :=
  inputs.semanticAnalysis.uncertaintyFlags.val ++
  inputs.semanticAnalysis.recommendedVerdict.uncertaintyFlags.val ++
  specialistFlags casefold inputs.specialistBundle ++
  (if inputs.deterministicResult.findings ≠ [] ∧ !inputs.deterministicResult.blocked then
    [txt "deterministic_findings_present"] else []) ++
  (if confidence < inputs.policy.minimumConfidence.val then
    [txt "confidence_below_policy_minimum"] else []) ++
  (if inputs.semanticAnalysis.hasLowConfidenceDimension then
    [txt "low_confidence_semantic_dimension"] else []) ++
  (if inputs.semanticAnalysis.evidenceSufficiency.val < 25 / 100 then
    [txt "weak_semantic_evidence"] else []) ++
  (if isBorderline inputs finalScore then [txt "borderline_fused_score"] else []) ++
  (if overrideFired then [txt "semantic_dominance_override"] else []) ++
  (if inputs.agentBundle.agentPresent then inputs.agentBundle.allUncertaintyFlags casefold else [])

def buildUncertaintyFlags (casefold : Str → Str) (overrideFired : Bool) : List Str :=
  keepFirst casefold (emittedFlags inputs finalScore confidence casefold overrideFired)

end Ladder

/-- `round` to four digits. -/
def round4 (score : UnitScore) : UnitScore :=
  ⟨(roundHalfEven (score.val * (10000 : ℕ)) : ℚ) / (10000 : ℕ),
    roundHalfEven_unit score.property (by decide)⟩

def routerFlags (casefold : Str → Str) (rule : SelectiveRiskRule) (inputs : RouterInputs)
    (fused : FusedEvidence) : List Str :=
  buildUncertaintyFlags inputs fused.finalScore fused.confidence casefold
    (semanticDominanceOverrideFired rule inputs)

def routerVerdict (casefold : Str → Str) (rule : SelectiveRiskRule) (inputs : RouterInputs)
    (fused : FusedEvidence) : Verdict :=
  determineVerdict rule inputs fused.finalScore fused.confidence casefold
    (routerFlags casefold rule inputs fused)

def route (casefold : Str → Str) (rule : SelectiveRiskRule) (inputs : RouterInputs)
    (fused : FusedEvidence) : Except PyErr RoutingResult :=
  RoutingResult.make casefold (routerVerdict casefold rule inputs fused) (round4 fused.confidence)
    (round4 fused.finalScore) fused.reasons fused.findings fused.scores
    (routerFlags casefold rule inputs fused) fused.asiFindings
    (semanticDominanceOverrideFired rule inputs)

end TexGovernance.Engine
