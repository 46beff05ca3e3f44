import TexGovernance.Contracts.Enforcement
import TexGovernance.Engine.Routing

/-!
# What the checks in front of the router report

`ContractEvaluationOutcome` (`engine/contract_bridge.py`), `PathPolicyOutcome`
(`engine/path_policy_bridge.py`) and `StructuralFloorResult` (`specialists/structural_floor.py`),
without their latencies.
-/

namespace TexGovernance.Engine
open PyStr PyFloat

structure ContractEvaluationOutcome where
  hasHardViolation : Bool
  hasSoftViolation : Bool
  findings : List Finding
  forbidReason : Option Str
  softUncertaintyFlags : List Str
  rawViolations : List Contracts.ContractViolation
  sessionKey : Option Str
  replayedWindowSize : ℕ
  stepIndexAtCheck : ℕ
  forbidReason_nonblank : ∀ s, forbidReason = some s → strip s ≠ []
  flags_nonblank : ∀ s ∈ softUncertaintyFlags, strip s ≠ []

def neutralOutcome : ContractEvaluationOutcome where
  hasHardViolation := false
  hasSoftViolation := false
  findings := []
  forbidReason := none
  softUncertaintyFlags := []
  rawViolations := []
  sessionKey := none
  replayedWindowSize := 0
  stepIndexAtCheck := 0
  forbidReason_nonblank := fun _ h => nomatch h
  flags_nonblank := fun _ h => nomatch h

structure PathPolicyOutcome where
  checked : Bool
  hasBlock : Bool
  hasWarn : Bool
  violatedPolicyIds : List Str
  violationScore : ℚ
  findings : List Finding
  forbidReason : Option Str
  softUncertaintyFlags : List Str
  forbidReason_nonblank : ∀ s, forbidReason = some s → strip s ≠ []
  flags_nonblank : ∀ s ∈ softUncertaintyFlags, strip s ≠ []

def neutralPathOutcome : PathPolicyOutcome where
  checked := false
  hasBlock := false
  hasWarn := false
  violatedPolicyIds := []
  violationScore := 0
  findings := []
  forbidReason := none
  softUncertaintyFlags := []
  forbidReason_nonblank := fun _ h => nomatch h
  flags_nonblank := fun _ h => nomatch h

inductive PathSeverity where
  | block
  | warn
  | audit
  deriving DecidableEq, Repr

def PathSeverity.text : PathSeverity → Str
  | .block => txt "block"
  | .warn => txt "warn"
  | .audit => txt "audit"

def pathBlockForbidReason : Str :=
  txt "behavioral path policy hard violation (block) — action forbidden by its position in the agent's execution path"

def softPathUncertaintyFlag : Str := txt "path_policy_soft_violation"

def pathFinding (historyLength : ℕ) (violated : Str × PathSeverity) : Except PyErr Finding :=
  Finding.make (txt "path_policy.runtime") violated.1
    (match violated.2 with
      | .block => .critical
      | .warn => .warning
      | .audit => .info)
    (txt "Path policy '" ++ violated.1 ++ txt "' (" ++ violated.2.text ++
      txt ") violated by the candidate action given the " ++
      (Nat.toDigits 10 historyLength).map cp ++ txt "-step execution path.")

/-- The end of `evaluate_path_policies_for_request`, from what the checker
reports: the violated policies with their severities, the score and the
number of replayed steps. -/
def buildPathOutcome (violated : List (Str × PathSeverity)) (violationScore : ℚ)
    (historyLength : ℕ) : Except PyErr PathPolicyOutcome := do
  let findings ← violated.mapM (pathFinding historyLength)
  let hasBlock := violated.any fun v => v.2 = .block
  let hasWarn := violated.any fun v => v.2 = .warn
  .ok {
    checked := true
    hasBlock := hasBlock
    hasWarn := hasWarn
    violatedPolicyIds := violated.map Prod.fst
    violationScore := violationScore
    findings := findings
    forbidReason := if hasBlock then some pathBlockForbidReason else none
    softUncertaintyFlags := if hasWarn then [softPathUncertaintyFlag] else []
    forbidReason_nonblank := by
      intro s hs
      split at hs
      · rw [← Option.some.inj hs]
        decide +kernel
      · cases hs
    flags_nonblank := by
      intro s hs
      split at hs
      · rw [List.mem_singleton.mp hs]
        decide
      · cases hs }

structure StructuralDeny where
  specialist : Str
  reason : { s : Str // strip s ≠ [] }

structure StructuralFloorResult where
  fired : Bool
  denies : List StructuralDeny
  findings : List Finding

def neutralStructuralFloor : StructuralFloorResult := ⟨false, [], []⟩

end TexGovernance.Engine
