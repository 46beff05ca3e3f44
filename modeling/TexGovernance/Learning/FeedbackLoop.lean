import TexGovernance.Learning.Calibrator
import TexGovernance.Stores.PolicyStore

/-!
# The feedback loop

`FeedbackLoopOrchestrator` (`learning/feedback_loop.py`) over its three stores: proposals are
drafted, applied, rejected and rolled back. What the other monitors of the loop say of a draft
is an input.
-/

namespace TexGovernance.Learning
open PyStr PyRepr PyDict PyJson PyFloat CaseFold Actions Domain Stores Selfgov
open Engine (Uuid)

structure LoopStores (fold : CaseFolding) where
  policies : PolicyStore fold
  proposals : ProposalStore
  histories : Histories

abbrev LoopAct (fold : CaseFolding) (α : Type) := EStateM PyErr (World (LoopStores fold)) α

structure FeedbackLoopOrchestrator where
  sameJson : SameJson
  draws : Draws
  py : Interpreter
  binding : Option Binding
  calibrator : ThresholdCalibrator
  safety : CalibrationSafetyGuard
  float : ℚ → NumberText

section Parts

variable {fold : CaseFolding} {α : Type}

def putPolicies (w : World (LoopStores fold)) (inner : World (PolicyStore fold)) : World (LoopStores fold) :=
  ⟨{ w.store with policies := inner.store }, inner.log⟩

def putProposals (w : World (LoopStores fold)) (proposals : ProposalStore) : World (LoopStores fold) :=
  { w with store := { w.store with proposals } }

def putHistories (w : World (LoopStores fold)) (histories : Histories) : World (LoopStores fold) :=
  { w with store := { w.store with histories } }

def onPolicies (x : EStateM PyErr (World (PolicyStore fold)) α) : LoopAct fold α :=
  zoom (fun w => ⟨w.store.policies, w.log⟩) putPolicies x

def onProposals (x : ProposalAct α) : LoopAct fold α := zoom (fun w => w.store.proposals) putProposals x

/-- `require` of the policy store. -/
def requirePolicy (version : Str) : LoopAct fold (PolicySnapshot fold) := fun w =>
  match w.store.policies.get version with
  | none => .error .other w
  | some policy => .ok policy w

/-- `require_active`. -/
def requireActive : LoopAct fold (PolicySnapshot fold) := fun w =>
  match w.store.policies.getActive with
  | none => .error .other w
  | some policy => .ok policy w

def raising (x : Except PyErr α) : LoopAct fold α := fun w =>
  match x with
  | .ok a => .ok a w
  | .error e => .error e w

def setHistories (histories : Histories) : LoopAct fold Unit := modify fun w => putHistories w histories

end Parts

section Describe

variable (float : ℚ → NumberText) {fold : CaseFolding}

def thresholdFacts (t : Thresholds) : PolicyFacts where
  permitThreshold := some t.permit
  forbidThreshold := some t.forbid
  minimumConfidence := some t.confidence
  blockedTerms := []
  enabledRecognizers := []
  deterministicBlockSeverities := []
  sensitiveEntities := []

def candidateFacts (source : PolicySnapshot fold) (r : CalibrationRecommendation) : PolicyFacts :=
  { policyFacts source with
    permitThreshold := some r.recommendedPermitThreshold
    forbidThreshold := some r.recommendedForbidThreshold
    minimumConfidence := some r.recommendedMinimumConfidence }

def applyAxes (proposal : CalibrationProposal) (policies : PolicyStore fold) : List Str :=
  let own := weakeningAxes (some (thresholdFacts (current proposal.recommendation)))
    (some (thresholdFacts (recommended proposal.recommendation)))
  let against :=
    match policies.getActive, policies.get proposal.sourcePolicyVersion.text with
    | some active, some source =>
      weakeningAxes (some (policyFacts active)) (some (candidateFacts source proposal.recommendation))
    | _, _ => []
  ((own ++ against).dedup).mergeSort strLe

def describeProposalApply (proposal : CalibrationProposal) (policies : PolicyStore fold) : MutationDescriptor where
  surface := txt "learning.feedback_loop.FeedbackLoopOrchestrator.apply_proposal"
  mutationClass := proposalApply
  subjectId := some proposal.proposalId.text
  payload := .ofItems [
    (txt "source_policy_version", .str proposal.sourcePolicyVersion.text),
    (txt "proposed_new_version", .str proposal.proposedNewVersion.text),
    (txt "old", thresholdItems float [] (current proposal.recommendation)),
    (txt "new", thresholdItems float [] (recommended proposal.recommendation)),
    (txt "weakening_axes", .list ((applyAxes proposal policies).map .str))]

def rollbackAxes (target : Str) (policies : PolicyStore fold) : List Str :=
  weakeningAxes (policies.getActive.map policyFacts)
    (if target = [] then none else (policies.get target).map policyFacts)

def describeProposalRollback (proposal : CalibrationProposal) (target : Str) (policies : PolicyStore fold) :
    MutationDescriptor where
  surface := txt "learning.feedback_loop.FeedbackLoopOrchestrator.rollback_proposal"
  mutationClass := proposalRollback
  subjectId := some proposal.proposalId.text
  payload := .ofItems [
    (txt "rollback_target_version", .str target),
    (txt "weakening_axes", .list ((rollbackAxes target policies).map .str))]

end Describe

structure ProposeCall where
  proposalId : Uuid
  tenantId : Str
  proposedNewVersion : Str
  createdBy : Str
  sourcePolicyVersion : Option Str
  summary : OutcomeSummary
  /-- The draft is held: a cold start, too little evidence, or a freeze. -/
  held : Bool
  refused : Bool
  now : ℤ
  write : WriteOutcome

def toField (n : ℕ) (text : Str) : Except PyErr (FieldText n) :=
  if h : text ≠ [] ∧ fitsField n text then .ok ⟨text, h.1, h.2⟩ else .error .valueError

section Methods

variable (loop : FeedbackLoopOrchestrator) {fold : CaseFolding}

def resolveSourcePolicy : Option Str → LoopAct fold (PolicySnapshot fold)
  | none => requireActive
  | some version => requirePolicy (strip version)

/-- `CalibrationProposal.build`. -/
def buildProposal (call : ProposeCall) (source : PolicySnapshot fold) (r : CalibrationRecommendation) :
    Except PyErr CalibrationProposal := do
  let _ ← toField 200 (strip call.tenantId)
  let _ ← toField 200 (strip call.createdBy)
  let proposedNewVersion ← toField 100 (strip call.proposedNewVersion)
  return {
    proposalId := call.proposalId
    sourcePolicyId := source.policyId
    sourcePolicyVersion := source.version
    proposedNewVersion
    recommendation := r
    status := .pending
    approvedBy := none
    approvedAt := none
    rejectedBy := none
    rejectedAt := none
    rejectionReason := none
    appliedAt := none
    appliedPolicyVersion := none
    rolledBackBy := none
    rolledBackAt := none
    rollbackTargetVersion := none }

def safetyEvaluate (now : ℤ) (source : PolicySnapshot fold) (r : CalibrationRecommendation) :
    LoopAct fold SafetyDecision := do
  let (decision, histories) := evaluate loop.safety loop.float now source.policyId.text r (← get).store.histories
  setHistories histories
  return decision

def saveDraft (call : ProposeCall) (source : PolicySnapshot fold) (r : CalibrationRecommendation) :
    LoopAct fold (Option CalibrationProposal) := do
  let proposal ← raising (buildProposal call source r)
  onProposals (saveProposal proposal call.write)
  return some proposal

/-- The end of `propose`, behind the holds. -/
def draftFrom (call : ProposeCall) (source : PolicySnapshot fold) : LoopAct fold (Option CalibrationProposal) := do
  let decision ← safetyEvaluate loop call.now source (loop.calibrator.recommend source call.summary)
  if decision.allowed = false then return none
  else if decision.clippedRecommendation.changed = false then return none
  else if call.refused then return none
  else saveDraft call source decision.clippedRecommendation

/-- `propose`: the proposal, where there is one. -/
def propose (call : ProposeCall) : LoopAct fold (Option CalibrationProposal) :=
  if strip call.tenantId = [] then throw .valueError
  else if strip call.createdBy = [] then throw .valueError
  else do
    let source ← resolveSourcePolicy call.sourcePolicyVersion
    if call.held then return none else draftFrom loop call source

structure ApplyCall where
  proposalId : Uuid
  approver : Str
  approvedAt : ℤ
  approvalWrite : WriteOutcome
  now : ℤ
  appliedAt : ℤ
  applicationWrite : WriteOutcome

def proposalMetadata (proposal : CalibrationProposal) (approver : Str) : List (Str × PyObj) :=
  [(txt "calibration_proposal_id", .str proposal.proposalId.text), (txt "calibration_approved_by", .str approver)]

def describeApply (id : Uuid) (stores : LoopStores fold) : Except PyErr MutationDescriptor :=
  match stores.proposals.get id with
  | none => .error .other
  | some proposal => .ok (describeProposalApply loop.float proposal stores.policies)

def applyWrites (call : ApplyCall) (approved : CalibrationProposal) (source newPolicy : PolicySnapshot fold) :
    LoopAct fold CalibrationProposal := do
  onPolicies (savePolicy loop.sameJson loop.draws loop.py loop.binding newPolicy)
  let _ ← onPolicies (activate loop.draws loop.py loop.binding newPolicy.version.text)
  setHistories (commit call.now source.policyId.text approved.recommendation (← get).store.histories)
  onProposals (markApplied call.proposalId newPolicy.version.text call.appliedAt call.applicationWrite)

def applyApproved (call : ApplyCall) (approved : CalibrationProposal) : LoopAct fold CalibrationProposal := do
  let source ← requirePolicy approved.sourcePolicyVersion.text
  let newPolicy ← raising (applyRecommendation loop.float source approved.recommendation approved.proposedNewVersion
    (proposalMetadata approved call.approver))
  applyWrites loop call approved source newPolicy

def applyIf (call : ApplyCall) (allowed : Bool) : LoopAct fold CalibrationProposal :=
  if allowed = false then onProposals (require call.proposalId)
  else do
    let approved ← onProposals (approve call.proposalId call.approver call.approvedAt call.approvalWrite)
    applyApproved loop call approved

def applyProposal (call : ApplyCall) : LoopAct fold CalibrationProposal :=
  gated loop.draws loop.py loop.binding (describeApply loop call.proposalId) >>= applyIf loop call

def rejectProposal (id : Uuid) (rejecter reason : Str) (now : ℤ) (write : WriteOutcome) :
    LoopAct fold CalibrationProposal :=
  onProposals (reject id rejecter reason now write)

def rollbackIf (id : Uuid) (proposal : CalibrationProposal) (target rolledBackBy : Str) (now : ℤ)
    (write : WriteOutcome) (allowed : Bool) : LoopAct fold CalibrationProposal :=
  if allowed = false then return proposal
  else do
    let _ ← onPolicies (activate loop.draws loop.py loop.binding target)
    onProposals (markRolledBack id rolledBackBy now write)

def rollbackProposal (id : Uuid) (rolledBackBy : Str) (now : ℤ) (write : WriteOutcome) :
    LoopAct fold CalibrationProposal := do
  let proposal ← onProposals (require id)
  match proposal.rollbackTargetVersion with
  | none => throw .other
  | some target =>
    gated loop.draws loop.py loop.binding
      (fun stores => .ok (describeProposalRollback proposal target stores.policies)) >>=
        rollbackIf loop id proposal target rolledBackBy now write

end Methods

end TexGovernance.Learning
