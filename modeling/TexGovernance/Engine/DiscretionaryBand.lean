import TexGovernance.Engine.Router
import TexGovernance.Engine.TranscriptBuild

/-!
# What the precedent step may resolve

A trigger is a reason to hold an action that is none of the discretionary ones.
-/

namespace TexGovernance.Engine
open PyStr PyDict PyFloat KeepFirst Pipeline

inductive AbstainTrigger where
  | forcedStatus
  | semanticAbstain
  | semanticForbid
  | specialistRisk
  | structuralSpecialist
  | missingContext
  | forbidStreak
  | pendingAgent
  | softContract
  | pathWarn
  | predictiveHold
  | cadenceHold
  | riskSpine
  | pqDurability
  | crcGate
  deriving DecidableEq

/-- The triggers that stamp no flag when the router has already abstained. -/
def silentTriggers : List AbstainTrigger :=
  [.semanticAbstain, .semanticForbid, .specialistRisk, .structuralSpecialist, .predictiveHold,
    .cadenceHold, .riskSpine, .pqDurability, .crcGate]

def Holds (stage : Stage PyErr RoutingResult) (base : RoutingResult) : Prop :=
  ∃ r, stage { base with verdict := .permit } = .ok r ∧ r.verdict = .abstain

section Fires

variable (casefold : Str → Str) (inputs : RouterInputs) (fused : FusedEvidence)

def flagsOf : List Str := routerFlags casefold defaultSelectiveRiskRule inputs fused

def verdictOf : Verdict := routerVerdict casefold defaultSelectiveRiskRule inputs fused

/-- The trigger's own condition: on its own it makes the verdict ABSTAIN. -/
def AbstainTrigger.Fires (o : ComponentOutputs) : AbstainTrigger → Prop
  | .forcedStatus => forcesAbstain inputs = true
  | .semanticAbstain => inputs.semanticAnalysis.recommendedVerdict.verdict = .abstain
  | .semanticForbid => inputs.semanticAnalysis.recommendedVerdict.verdict = .forbid
  | .specialistRisk => isSpecialistRisk defaultSelectiveRiskRule inputs fused.finalScore = true
  | .structuralSpecialist =>
    isStructuralSpecialist defaultSelectiveRiskRule inputs fused.finalScore = true
  | .missingContext =>
    lacksRetrievalContext inputs fused.finalScore casefold (flagsOf casefold inputs fused) = true
  | .forbidStreak => isForbidStreak defaultSelectiveRiskRule inputs = true
  | .pendingAgent => isPendingAgent defaultSelectiveRiskRule inputs fused.finalScore = true
  | .softContract => Holds (softContractStage casefold o.contractOutcome) o.baseRoutingResult
  | .pathWarn => Holds (pathStage casefold o.pathOutcome) o.baseRoutingResult
  | .predictiveHold =>
    Holds (applyPredictiveHolds casefold o.lookahead o.recoverable) o.baseRoutingResult
  | .cadenceHold => Holds (applyCadenceHold casefold o.cadence) o.baseRoutingResult
  | .riskSpine => Holds (applyRiskSpine casefold o.riskSpine) o.baseRoutingResult
  | .pqDurability => Holds (applyPqDurabilityHold casefold o.pqDurability) o.baseRoutingResult
  | .crcGate => Holds (crcStage casefold o.crcGate) o.baseRoutingResult

end Fires

end TexGovernance.Engine
