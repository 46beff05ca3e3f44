import TexGovernance.Lib.PyStr
import TexGovernance.Lib.PyJson
import Mathlib.Data.Rat.Defs

/-!
# Signatures over mutations of the controller

`specialists/metaguard.py`: which attempts to change what Tex decides next are floored or
held. A signature looks at the facts of the attempt only: at thresholds and sets before and
after, at a pair of lifecycle states, at the class of the mutation.
-/

namespace TexGovernance.Selfgov
open PyStr PyJson CaseFold

def policyWrite : Str := txt "policy_write"
def policyActivate : Str := txt "policy_activate"
def policyDelete : Str := txt "policy_delete"
def policyClear : Str := txt "policy_clear"
def proposalApply : Str := txt "proposal_apply"
def proposalRollback : Str := txt "proposal_rollback"
def governanceActivate : Str := txt "governance_activate"
def lifecycleTransition : Str := txt "lifecycle_transition"
def agentSave : Str := txt "agent_save"
def keyMutation : Str := txt "key_mutation"
def governorBinding : Str := txt "governor_binding"

def governorPolicyId : Str := txt "reflexive-governor"

/-- `bool(x)`. -/
def truth : PyObj → Bool
  | .none => false
  | .bool b => b
  | .int z => z ≠ 0
  | .float text => text.val ∉ [txt "0.0", txt "-0.0"]
  | .str s => s ≠ []
  | .list items | .tuple items => !items.isEmpty
  | .dict items => !items.isEmpty
  | .other _ => true

/-- `x is True`. -/
def isTrue : PyObj → Bool
  | .bool true => true
  | _ => false

/-- `tuple(x or ())`. -/
def tupleOr (x : PyObj) : Except PyErr (List PyObj) :=
  if truth x = false then .ok []
  else match x with
    | .list items | .tuple items => .ok items
    | .dict items => .ok (items.map fun m => .str m.1)
    | .str s => .ok (s.map fun c => .str [c])
    | _ => .error .other

structure Payload where
  truth : Except PyErr Bool
  get : Str → Except PyErr PyObj
  /-- `json.dumps(payload, sort_keys=True, separators=(",", ":"), default=str)`. -/
  dumps : Except PyErr Str
  /-- `dict(payload)`. -/
  asDict : Except PyErr (List (Str × PyObj))

def Payload.ofItems (items : List (Str × PyObj)) : Payload where
  truth := .ok !items.isEmpty
  get key := .ok ((items.lookup key).getD .none)
  dumps := PyJson.dumps (.dict items)
  asDict := .ok items

/-- `None`. -/
def Payload.null : Payload where
  truth := .ok false
  get _ := .error .other
  dumps := .ok (txt "null")
  asDict := .error .other

/-- `payload or {}`. -/
def Payload.orEmpty (payload : Payload) : Except PyErr Payload := do
  return if ← payload.truth then payload else .ofItems []

structure MutationDescriptor where
  surface : Str
  mutationClass : Str
  subjectId : Option Str
  payload : Payload
  environment : Str := txt "production"

structure MetaguardSignature where
  code : Str
  reason : Str
  deriving DecidableEq

structure MetaguardResult where
  floor : List MetaguardSignature
  caution : List MetaguardSignature
  protectivePass : Bool
  noChange : Bool
  deriving DecidableEq

namespace MetaguardResult

variable (mg : MetaguardResult)

def fired : Bool := !mg.floor.isEmpty || !mg.caution.isEmpty

def floorCodes : List Str := mg.floor.map MetaguardSignature.code

def cautionCodes : List Str := mg.caution.map MetaguardSignature.code

def codes : List Str := mg.floorCodes ++ mg.cautionCodes

end MetaguardResult

/-- `_policy_facts`; a threshold that is missing or no number is left out. -/
structure PolicyFacts where
  permitThreshold : Option ℚ
  forbidThreshold : Option ℚ
  minimumConfidence : Option ℚ
  blockedTerms : List Str
  enabledRecognizers : List Str
  deterministicBlockSeverities : List Str
  sensitiveEntities : List Str
  deriving DecidableEq

def eps : ℚ := 1 / 10 ^ 9

structure ThresholdAxis where
  name : Str
  value : PolicyFacts → Option ℚ
  raises : Bool

def thresholdAxes : List ThresholdAxis :=
  [⟨txt "permit_threshold", PolicyFacts.permitThreshold, true⟩,
   ⟨txt "forbid_threshold", PolicyFacts.forbidThreshold, true⟩,
   ⟨txt "minimum_confidence", PolicyFacts.minimumConfidence, false⟩]

def protectionAxes : List (Str × (PolicyFacts → List Str)) :=
  [(txt "blocked_terms", PolicyFacts.blockedTerms),
   (txt "enabled_recognizers", PolicyFacts.enabledRecognizers),
   (txt "deterministic_block_severities", PolicyFacts.deterministicBlockSeverities),
   (txt "sensitive_entities", PolicyFacts.sensitiveEntities)]

def ThresholdAxis.loosens (axis : ThresholdAxis) (old new : PolicyFacts) : Bool :=
  match axis.value old, axis.value new with
  | some oldValue, some newValue =>
    if axis.raises then oldValue + eps < newValue else newValue < oldValue - eps
  | _, _ => false

def removesFrom (old new : List Str) : Bool := old.any fun item => item ∉ new

def weakeningAxes (old new : Option PolicyFacts) : List Str :=
  match old, new with
  | some old, some new =>
    ((thresholdAxes.filter fun axis => axis.loosens old new).map ThresholdAxis.name) ++
      (protectionAxes.filter fun axis => removesFrom (axis.2 old) (axis.2 new)).map Prod.fst
  | _, _ => []

abbrev SurfaceFacts := List (Str × List Str)

def widens (old new : List Str) : Bool :=
  !old.isEmpty && (new.isEmpty || removesFrom new old)

def widenedDimensions (oldSurface newSurface : SurfaceFacts) : List Str :=
  (sortedNames ((oldSurface ++ newSurface).map Prod.fst).dedup).filter fun key =>
    widens ((oldSurface.lookup key).getD []) ((newSurface.lookup key).getD [])

structure Interpreter where
  fold : AsciiFolding
  /-- `str.lower`. -/
  lower : Str → Str
  lower_ascii : ∀ s : Str, (∀ c ∈ s, c.val < 0x80) → lower s = s.map lowerLetter
  /-- `str` of what is not a text. -/
  display : PyObj → Str
  floatRepr : ℚ → NumberText

section Signatures

variable (py : Interpreter)

/-- `str(x)`. -/
def strOf (x : PyObj) : Str :=
  match x with
  | .str s | .other s => s
  | x => py.display x

/-- `str(x or "")`. -/
def strOr (x : PyObj) : Str := if truth x = false then [] else strOf py x

/-- `(x or "").strip().casefold()`. -/
def foldedOr (x : PyObj) : Except PyErr Str :=
  if truth x = false then .ok []
  else match x with
    | .str s => .ok (py.fold.clean s)
    | _ => .error .other

def terminalStatus : Str := txt "revoked"
def quarantinedStatus : Str := txt "quarantined"
def raisedTargets : List Str := [txt "active", txt "pending"]
def loweredTargets : List Str := [txt "quarantined", txt "sleeping", txt "revoked"]

def transitionText (oldStatus newStatus : PyObj) : Str :=
  txt "(" ++ strOf py oldStatus ++ txt " -> " ++ strOf py newStatus ++ txt ")"

def revokedResurrection (oldStatus newStatus : PyObj) : MetaguardSignature where
  code := txt "metaguard.revoked_resurrection"
  reason := txt "lifecycle transition out of terminal REVOKED " ++ transitionText py oldStatus newStatus ++
    txt " would falsify the irreversible day-90 kill"

def quarantineLift (oldStatus newStatus : PyObj) : MetaguardSignature where
  code := txt "metaguard.quarantine_lift"
  reason := txt "quarantine lift " ++ transitionText py oldStatus newStatus ++
    txt " raises the agent's verdict floor (QUARANTINED routes every action to ABSTAIN); " ++
    txt "requires a human hold resolution"

def lifecycleSignatures (oldStatus newStatus : PyObj) :
    Except PyErr (List MetaguardSignature × List MetaguardSignature) := do
  let oldS ← foldedOr py oldStatus
  let newS ← foldedOr py newStatus
  if oldS = [] ∨ newS = [] ∨ oldS = newS then
    return ([], [])
  else if oldS = terminalStatus then
    return ([revokedResurrection py oldStatus newStatus], [])
  else if oldS = quarantinedStatus ∧ newS ∈ raisedTargets then
    return ([], [quarantineLift py oldStatus newStatus])
  else
    return ([], [])

def governorSelfTarget : MetaguardSignature where
  code := txt "metaguard.governor_self_target"
  reason := txt "mutation targets the reflexive governor's deploy-frozen stratum (its policy family or " ++
    txt "binding); level-0 is immutable in-process by construction"

def governanceWeakening (axes : List PyObj) : MetaguardSignature where
  code := txt "metaguard.governance_weakening"
  reason := txt "mutation loosens governance vs the active policy on named axes: " ++
    (txt ", ").intercalate (axes.map (strOf py))

def capabilityWidening (widened : List PyObj) : MetaguardSignature where
  code := txt "metaguard.capability_widening"
  reason := txt "agent save widens the capability surface on: " ++
    (txt ", ").intercalate (widened.map (strOf py)) ++ txt " (moves the structural floor)"

def keyMaterialMutation : MetaguardSignature where
  code := txt "metaguard.key_material_mutation"
  reason := txt "in-process signing-key mutation (evidence-chain authorship is at stake); " ++
    txt "requires a human hold resolution"

def evidenceDestruction : MetaguardSignature where
  code := txt "metaguard.evidence_destruction"
  reason := txt "policy delete/clear destroys replay material (the locked spec reconstitutes " ++
    txt "historical decisions from snapshots)"

def targetsGovernor (mutationClass : Str) (payload : Payload) : Except PyErr Bool := do
  if mutationClass = governorBinding then return true
  let policyId ← payload.get (txt "policy_id")
  if strOr py policyId = governorPolicyId then return true
  let newPolicyId ← payload.get (txt "new_policy_id")
  return strOr py newPolicyId = governorPolicyId

def movesTowardCaution (mutationClass newS : Str) (payload : Payload) : Except PyErr Bool := do
  if mutationClass = governanceActivate then return true
  if mutationClass = lifecycleTransition ∧ newS ∈ loweredTargets then return true
  let newRegistration ← payload.get (txt "new_registration")
  if isTrue newRegistration then return true
  let stageWrite ← payload.get (txt "stage_write")
  if isTrue stageWrite then return true
  let narrowing ← payload.get (txt "narrowing")
  return isTrue narrowing

def cautionsFor (mutationClass : Str) (axes widened : List PyObj) : List MetaguardSignature :=
  (if axes.isEmpty then [] else [governanceWeakening py axes]) ++
    (if widened.isEmpty then [] else [capabilityWidening py widened]) ++
    (if mutationClass = keyMutation then [keyMaterialMutation] else []) ++
    (if mutationClass ∈ [policyDelete, policyClear] then [evidenceDestruction] else [])

def firedSignatures (mutationClass : Str) (payload : Payload) :
    Except PyErr (List MetaguardSignature × List MetaguardSignature) := do
  let targets ← targetsGovernor py mutationClass payload
  let oldStatus ← payload.get (txt "old_status")
  let newStatus ← payload.get (txt "new_status")
  let lifecycle ← lifecycleSignatures py oldStatus newStatus
  let axes ← payload.get (txt "weakening_axes") >>= tupleOr
  let widened ← payload.get (txt "widened_dimensions") >>= tupleOr
  return ((if targets then [governorSelfTarget] else []) ++ lifecycle.1,
    lifecycle.2 ++ cautionsFor py mutationClass axes widened)

def passesProtectively (fired : List MetaguardSignature × List MetaguardSignature) (mutationClass : Str)
    (payload : Payload) : Except PyErr Bool := do
  let newStatus ← payload.get (txt "new_status")
  if fired.1.isEmpty && fired.2.isEmpty then
    movesTowardCaution mutationClass (py.fold.clean (strOr py newStatus)) payload
  else .ok false

def evaluateMetaguard (descriptor : MutationDescriptor) : Except PyErr MetaguardResult := do
  let payload ← descriptor.payload.orEmpty
  let noChange ← payload.get (txt "no_change")
  if isTrue noChange then
    return { floor := [], caution := [], protectivePass := false, noChange := true }
  let fired ← firedSignatures py descriptor.mutationClass payload
  let protectivePass ← passesProtectively py fired descriptor.mutationClass payload
  return { floor := fired.1, caution := fired.2, protectivePass, noChange := false }

end Signatures

end TexGovernance.Selfgov
