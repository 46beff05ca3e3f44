import TexGovernance.Engine.ContractFlags
import TexGovernance.Engine.Router

/-!
# Which rung decides, and what the override flag says of it

The flag is computed next to the ladder with the test of its fourth rung.
-/

namespace TexGovernance.Engine
open PyStr PyDict PyFloat

/-- The `return` statements of `_determine_verdict`. -/
inductive Rung where
  | deterministicBlock
  | forcedAbstain
  | capabilityViolation
  | semanticDominance
  | softSemanticForbid
  | forbidThreshold
  | uncertainty
  | clean
  | fallThrough
  deriving DecidableEq

def Rung.verdict : Rung → Verdict
  | .deterministicBlock | .capabilityViolation | .semanticDominance | .softSemanticForbid
  | .forbidThreshold => .forbid
  | .forcedAbstain | .uncertainty | .fallThrough => .abstain
  | .clean => .permit

section Rungs

variable (rule : SelectiveRiskRule) (inputs : RouterInputs) (finalScore confidence : ℚ)
variable (casefold : Str → Str) (uncertaintyFlags : List Str)

def decidingRung : Rung :=
  let recommended := inputs.semanticAnalysis.recommendedVerdict.verdict
  if inputs.deterministicResult.blocked then .deterministicBlock
  else if forcesAbstain inputs then .forcedAbstain
  else if violatesCapability inputs then .capabilityViolation
  else if semanticDominance rule inputs then .semanticDominance
  else if recommended = .forbid ∧ inputs.policy.permitThreshold.val ≤ finalScore then
    .softSemanticForbid
  else if inputs.policy.forbidThreshold.val ≤ finalScore then .forbidThreshold
  else if shouldAbstain rule inputs finalScore confidence casefold uncertaintyFlags then .uncertainty
  else if finalScore ≤ inputs.policy.permitThreshold.val ∧
      inputs.policy.minimumConfidence.val ≤ confidence ∧ recommended = .permit then .clean
  else .fallThrough

theorem determineVerdict_eq_rung :
    determineVerdict rule inputs finalScore confidence casefold uncertaintyFlags =
      (decidingRung rule inputs finalScore confidence casefold uncertaintyFlags).verdict := by
  unfold determineVerdict decidingRung
  simp only [apply_ite Rung.verdict]
  rfl

theorem decidingRung_semanticDominance_iff :
    decidingRung rule inputs finalScore confidence casefold uncertaintyFlags = .semanticDominance ↔
      inputs.deterministicResult.blocked = false ∧ forcesAbstain inputs = false ∧
        violatesCapability inputs = false ∧ semanticDominance rule inputs = true := by
  unfold decidingRung
  simp only
  cases inputs.deterministicResult.blocked with
  | true => simp
  | false =>
    cases forcesAbstain inputs with
    | true => simp
    | false =>
      cases violatesCapability inputs with
      | true => simp
      | false =>
        cases semanticDominance rule inputs with
        | true => simp
        | false =>
          simp only [Bool.false_eq_true, if_false, and_false, iff_false]
          repeat' split
          all_goals exact Rung.noConfusion

end Rungs

section Flag

variable {casefold : Str → Str} {rule : SelectiveRiskRule} {inputs : RouterInputs}
variable {fused : FusedEvidence}

theorem route_ruling {result : RoutingResult} (h : route casefold rule inputs fused = .ok result) :
    result.verdict = routerVerdict casefold rule inputs fused ∧
      result.semanticDominanceOverrideFired = semanticDominanceOverrideFired rule inputs :=
  ⟨(RoutingResult.make_fields h).1, RoutingResult.make_fired h⟩

theorem semanticDominanceOverrideFired_iff :
    semanticDominanceOverrideFired rule inputs = true ↔
      inputs.deterministicResult.blocked = false ∧ semanticDominance rule inputs = true := by
  unfold semanticDominanceOverrideFired
  cases inputs.deterministicResult.blocked <;> simp

/-- The dominance test holds, nothing is blocked, and a rung on the agent
decides. -/
def AgentRungHidesDominance (rule : SelectiveRiskRule) (inputs : RouterInputs) : Prop :=
  inputs.deterministicResult.blocked = false ∧ semanticDominance rule inputs = true ∧
    (forcesAbstain inputs = true ∨ violatesCapability inputs = true)

instance : Decidable (AgentRungHidesDominance rule inputs) := inferInstanceAs (Decidable (_ ∧ _))

def routerRung (casefold : Str → Str) (rule : SelectiveRiskRule) (inputs : RouterInputs)
    (fused : FusedEvidence) : Rung :=
  decidingRung rule inputs fused.finalScore fused.confidence casefold
    (routerFlags casefold rule inputs fused)

theorem routerVerdict_eq_rung :
    routerVerdict casefold rule inputs fused = (routerRung casefold rule inputs fused).verdict :=
  determineVerdict_eq_rung ..

/-- The flag of a routed result says which rung decided exactly when no rung on
the agent stands before a dominance that holds. -/
theorem override_flag_truthful_iff {result : RoutingResult}
    (h : route casefold rule inputs fused = .ok result) :
    ((result.semanticDominanceOverrideFired = true ↔
        routerRung casefold rule inputs fused = .semanticDominance) ∧
      (result.semanticDominanceOverrideFired = true → result.verdict = .forbid)) ↔
      ¬ AgentRungHidesDominance rule inputs := by
  obtain ⟨hverdict, hfired⟩ := route_ruling h
  rw [hverdict, hfired, semanticDominanceOverrideFired_iff]
  have hrung := decidingRung_semanticDominance_iff rule inputs fused.finalScore fused.confidence
    casefold (routerFlags casefold rule inputs fused)
  constructor
  · intro ⟨hiff, _⟩ ⟨hblocked, hdominance, hagent⟩
    obtain ⟨-, hforces, hviolates, -⟩ := hrung.mp (hiff.mp ⟨hblocked, hdominance⟩)
    rcases hagent with hagent | hagent
    · rw [hforces] at hagent
      cases hagent
    · rw [hviolates] at hagent
      cases hagent
  · intro hclear
    have hiff : (inputs.deterministicResult.blocked = false ∧ semanticDominance rule inputs = true) ↔
        routerRung casefold rule inputs fused = .semanticDominance := by
      refine ⟨fun ⟨hblocked, hdominance⟩ => ?_, fun hdecides => ?_⟩
      · have hforces : forcesAbstain inputs = false :=
          Bool.eq_false_iff.mpr fun hforces => hclear ⟨hblocked, hdominance, .inl hforces⟩
        have hviolates : violatesCapability inputs = false :=
          Bool.eq_false_iff.mpr fun hviolates => hclear ⟨hblocked, hdominance, .inr hviolates⟩
        exact hrung.mpr ⟨hblocked, hforces, hviolates, hdominance⟩
      · obtain ⟨hblocked, -, -, hdominance⟩ := hrung.mp hdecides
        exact ⟨hblocked, hdominance⟩
    refine ⟨hiff, fun hset => ?_⟩
    rw [routerVerdict_eq_rung, hiff.mp hset]
    rfl

end Flag

section Sample

theorem sampleRisk_mem : (95 / 100 : ℚ) ∈ UnitScore := by norm_num

def sampleForbidding : SemanticAnalysis where
  dimensionResults := List.replicate 5 ⟨⟨95 / 100, sampleRisk_mem⟩, ⟨95 / 100, sampleRisk_mem⟩⟩
  recommendedVerdict := ⟨.forbid, ⟨95 / 100, sampleRisk_mem⟩, default⟩
  evidenceSufficiency := ⟨9 / 10, nineTenths_mem⟩
  uncertaintyFlags := default

def sampleQuarantined (lifecycleStatus : AgentLifecycleStatus) : RouterInputs where
  deterministicResult := ⟨[], false⟩
  specialistBundle := []
  semanticAnalysis := sampleForbidding
  policy := defaultThresholds
  agentBundle :=
    { agentPresent := true
      identity := ⟨lifecycleStatus.value, default⟩
      capability := neutralCapabilitySignal
      behavioral := neutralBehavioralSignal }

def sampleRouted : FusedEvidence where
  finalScore := ⟨40 / 100, by norm_num⟩
  confidence := ⟨9 / 10, nineTenths_mem⟩
  reasons := []
  findings := []
  scores := Dict.empty
  asiFindings := []

theorem sampleQuarantined_routes (lifecycleStatus : AgentLifecycleStatus) :
    ∃ result, route asciiLower defaultSelectiveRiskRule (sampleQuarantined lifecycleStatus)
      sampleRouted = .ok result := by
  apply RoutingResult.make_returns
  · with_unfolding_all decide
  · cases lifecycleStatus <;> with_unfolding_all decide

/-- With an active agent the flag is right. -/
theorem override_flag_truthful_active :
    ∃ result, route asciiLower defaultSelectiveRiskRule (sampleQuarantined .active) sampleRouted =
        .ok result ∧
      (result.semanticDominanceOverrideFired = true ↔
        routerRung asciiLower defaultSelectiveRiskRule (sampleQuarantined .active) sampleRouted =
          .semanticDominance) := by
  obtain ⟨result, hresult⟩ := sampleQuarantined_routes .active
  exact ⟨result, hresult, ((override_flag_truthful_iff hresult).mpr (by with_unfolding_all decide)).1⟩

/-- The result of a quarantined agent is an ABSTAIN with the flag set. -/
theorem override_flag_on_abstain :
    ∃ result, route asciiLower defaultSelectiveRiskRule (sampleQuarantined .quarantined)
        sampleRouted = .ok result ∧
      result.semanticDominanceOverrideFired = true ∧ result.verdict = .abstain ∧
      routerRung asciiLower defaultSelectiveRiskRule (sampleQuarantined .quarantined) sampleRouted =
        .forcedAbstain := by
  obtain ⟨result, hresult⟩ := sampleQuarantined_routes .quarantined
  obtain ⟨hverdict, hfired⟩ := route_ruling hresult
  refine ⟨result, hresult, ?_, ?_, by with_unfolding_all decide⟩
  · rw [hfired]
    with_unfolding_all decide
  · rw [hverdict]
    with_unfolding_all decide

end Sample

end TexGovernance.Engine
