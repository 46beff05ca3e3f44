import TexGovernance.Governance.Standing
import TexGovernance.Selfgov.Metaguard

/-!
# The reflexive gate

`gate_controller_mutation` (`selfgov/governor.py`) over a bound policy decision point and
ledger. An evaluation may attempt gated mutations of its own before it answers; each of these
is a call of the same gate, one level deeper.
-/

namespace TexGovernance.Selfgov
open PyStr PyRepr PyDict PyJson Actions
open Provenance (SealedFact SealedFactRecord optionalText sha256Hex)
open Engine (Uuid Verdict)
open Governance (requiredField)

inductive Mechanism where
  | ungated
  | noChange
  | stagePass
  | registrationPass
  | protectivePass
  | pdpMetaguard
  | noRegressBackstop
  | errorFailClosed
  deriving DecidableEq

def Mechanism.text : Mechanism → Str
  | .ungated => txt "ungated"
  | .noChange => txt "no_change"
  | .stagePass => txt "stage_pass"
  | .registrationPass => txt "registration_pass"
  | .protectivePass => txt "protective_pass"
  | .pdpMetaguard => txt "pdp+metaguard"
  | .noRegressBackstop => txt "no_regress_backstop"
  | .errorFailClosed => txt "error_fail_closed"

structure GateOutcome where
  allowed : Bool
  gated : Bool
  verdict : Option Verdict
  mechanism : Mechanism
  reasons : List Str := []
  floorCodes : List Str := []
  cautionCodes : List Str := []
  hold : PyObj := .none
  enforcementRecord : Option SealedFactRecord := none
  decisionSealed : Bool := false

def ungated : GateOutcome where
  allowed := true
  gated := false
  verdict := none
  mechanism := .ungated
  reasons := [txt "reflexive governor unbound — mutation not governed (inert default)"]

structure EvaluationRequest where
  requestId : Uuid
  actionType : Str
  content : Str
  channel : Str
  environment : Str
  metadata : List (Str × PyObj)

/-- What the gate reads of a decision; `hold` is `metadata["pdp"]["hold"]`. -/
structure PdpResult where
  verdict : Verdict
  reasons : List Str
  hold : PyObj

structure Source where
  first : Except PyErr MutationDescriptor
  again : Except PyErr MutationDescriptor

def Source.of (descriptor : MutationDescriptor) : Source := ⟨.ok descriptor, .ok descriptor⟩

inductive Evaluation where
  | answer (result : PdpResult)
  | raises (e : PyErr)
  | mutate (attempt : Source) (next : Except PyErr GateOutcome → Evaluation)

structure Ledger where
  append : List SealedFact → SealedFact → Except PyErr SealedFactRecord

structure Binding where
  /-- `pdp.evaluate` under the bound policy. -/
  pdp : EvaluationRequest → Evaluation
  sealsDecisions : Bool
  ledger : Option Ledger

structure GateLog where
  asked : ℕ
  sealed : List (ℕ × SealedFact)

abbrev Gate (α : Type) := EStateM PyErr GateLog α

def lift {α : Type} (x : Except PyErr α) : Gate α := fun log =>
  match x with
  | .ok a => .ok a log
  | .error e => .error e log

structure Draws where
  uuid4 : ℕ → Uuid
  now : ℕ → Str

structure Ruling where
  allowed : Bool
  verdict : Verdict
  mechanism : Mechanism
  reasons : List Str
  floorCodes : List Str
  cautionCodes : List Str

def enforcementClaim (descriptor : MutationDescriptor) (allowed : Bool) : Str :=
  txt "controller mutation " ++ descriptor.surface ++ txt " (" ++ descriptor.mutationClass ++ txt ") " ++
    (if allowed then txt "allowed" else txt "blocked") ++
    txt " at the reflexive PEP under policy " ++ txt "reflexive-governor@reflexive-governor-frozen-v1 " ++
    txt "— gate outcome sealed (authorship+integrity); " ++ txt "verdict correctness NOT proven; " ++
    txt "mutation-surface completeness NOT proven " ++ txt "(enumerated census, see selfgov.governor)"

def enforcementDetail (descriptor : MutationDescriptor) (payload : List (Str × PyObj)) (ruling : Ruling) :
    Dict Str PyObj := .ofItems
  [(txt "allowed", .bool ruling.allowed),
   (txt "verdict", .str (Governance.Verdict.text ruling.verdict)),
   (txt "mechanism", .str ruling.mechanism.text),
   (txt "surface", .str descriptor.surface),
   (txt "mutation_class", .str descriptor.mutationClass),
   (txt "subject_id", optionalText descriptor.subjectId),
   (txt "payload", .dict payload),
   (txt "reasons", .list (ruling.reasons.map .str)),
   (txt "floor_codes", .list (ruling.floorCodes.map .str)),
   (txt "caution_codes", .list (ruling.cautionCodes.map .str))]

section Gate

variable (draws : Draws) (binding : Binding)

def enforcementFact (descriptor : MutationDescriptor) (ruling : Ruling) (count : ℕ) : Except PyErr SealedFact := do
  let payload ← descriptor.payload.asDict
  let claim := enforcementClaim descriptor ruling.allowed
  if fitsField 200 descriptor.surface ∧ fitsField 2000 claim then
    return {
      factId := (draws.uuid4 count).text
      kind := .enforcement
      subjectId := some descriptor.surface
      claim
      evidence := none
      maturity := .researchEarly
      detail := enforcementDetail descriptor payload ruling
      createdAt := draws.now count }
  else .error .valueError

def sealEnforcement (depth : ℕ) (descriptor : MutationDescriptor) (ruling : Ruling) :
    Gate (Option SealedFactRecord) := fun log =>
  match binding.ledger with
  | none => .ok none log
  | some ledger =>
    match enforcementFact draws descriptor ruling log.sealed.length with
    | .error e => .error e log
    | .ok fact =>
      match ledger.append (log.sealed.map Prod.snd) fact with
      | .ok record => .ok (some record) { log with sealed := log.sealed ++ [(depth, fact)] }
      | .error _ => .ok none log

def sealedOutcome (depth : ℕ) (descriptor : MutationDescriptor) (ruling : Ruling) : Gate GateOutcome := do
  let record ← sealEnforcement draws binding depth descriptor ruling
  return {
    allowed := ruling.allowed
    gated := true
    verdict := some ruling.verdict
    mechanism := ruling.mechanism
    reasons := ruling.reasons
    floorCodes := ruling.floorCodes
    cautionCodes := ruling.cautionCodes
    enforcementRecord := record }

variable (py : Interpreter)

def jsonText (s : Str) : Str := quote (utf16 s)

/-- `json.dumps(summary, sort_keys=True)`. -/
def summaryText (descriptor : MutationDescriptor) (payloadSha256 : Str) : Str :=
  txt "\x7b\"mutation_class\": " ++ jsonText descriptor.mutationClass ++
    txt ", \"payload_sha256\": " ++ jsonText payloadSha256 ++
    txt ", \"subject_id\": " ++ (descriptor.subjectId.map jsonText).getD (txt "null") ++
    txt ", \"surface\": " ++ jsonText descriptor.surface ++ txt "\x7d"

def irreversibleClasses : List Str := [policyDelete, policyClear, keyMutation]

def actionClass : PyObj :=
  .dict [(txt "steps", .list [.dict [(txt "reversibility", .str (txt "IRREVERSIBLE")),
    (txt "blast_radius", .str (txt "TENANT"))]])]

def requestMetadata (descriptor : MutationDescriptor) (payloadSha256 : Str) (payload : List (Str × PyObj)) :
    List (Str × PyObj) :=
  [(txt "controller_mutation", .dict
    [(txt "surface", .str descriptor.surface),
     (txt "mutation_class", .str descriptor.mutationClass),
     (txt "subject_id", optionalText descriptor.subjectId),
     (txt "payload_sha256", .str payloadSha256),
     (txt "payload", .dict payload)])] ++
    if descriptor.mutationClass ∈ irreversibleClasses then [(txt "action_class", actionClass)] else []

def buildRequest (descriptor : MutationDescriptor) (count : ℕ) : Except PyErr EvaluationRequest := do
  let payloadJson ← descriptor.payload.dumps
  let payloadSha256 ← sha256Hex payloadJson
  let payload ← descriptor.payload.asDict
  let actionType ← requiredField 100 py.lower (txt "controller_mutation")
  let content ← requiredField 50000 id (summaryText descriptor payloadSha256)
  let channel ← requiredField 50 py.lower (txt "selfgov")
  let environment ← requiredField 50 py.lower descriptor.environment
  return {
    requestId := draws.uuid4 count
    actionType
    content
    channel
    environment
    metadata := requestMetadata descriptor payloadSha256 payload }

def composeGateVerdict (pdpVerdict : Verdict) (mg : MetaguardResult) : Verdict :=
  if mg.floor.isEmpty = false then .forbid
  else if mg.caution.isEmpty = false ∧ pdpVerdict = .permit then .abstain
  else pdpVerdict

def metaguardHold (mg : MetaguardResult) : PyObj :=
  let pivot := (txt "; ").intercalate (mg.caution.map MetaguardSignature.reason)
  .dict [(txt "source", .str (txt "metaguard")),
    (txt "resolution_mode", .str (txt "human-judgment")),
    (txt "pivot", .str (if pivot = [] then txt "controller mutation held" else pivot)),
    (txt "codes", .list (mg.cautionCodes.map .str))]

def isNone : PyObj → Bool
  | .none => true
  | _ => false

def composedRuling (mg : MetaguardResult) (result : PdpResult) : Ruling where
  allowed := composeGateVerdict result.verdict mg = .permit
  verdict := composeGateVerdict result.verdict mg
  mechanism := .pdpMetaguard
  reasons := result.reasons ++ (mg.floor ++ mg.caution).map MetaguardSignature.reason
  floorCodes := mg.floorCodes
  cautionCodes := mg.cautionCodes

def composedOutcome (depth : ℕ) (descriptor : MutationDescriptor) (mg : MetaguardResult) (result : PdpResult) :
    Gate GateOutcome := do
  let ruling := composedRuling mg result
  let outcome ← sealedOutcome draws binding depth descriptor ruling
  return { outcome with
    hold := if ruling.verdict = .abstain ∧ isNone result.hold then metaguardHold mg else result.hold
    decisionSealed := binding.sealsDecisions }

def noChangeOutcome : GateOutcome where
  allowed := true
  gated := true
  verdict := some .permit
  mechanism := .noChange
  reasons := [txt "no-change write: state would be byte-identical"]

def stageOutcome : GateOutcome where
  allowed := true
  gated := true
  verdict := some .permit
  mechanism := .stagePass
  reasons := [txt "stage write (new inactive snapshot version): cannot change what Tex decides next " ++
    txt "until activated — activation is the gated step"]

def registrationOutcome : GateOutcome where
  allowed := true
  gated := true
  verdict := some .permit
  mechanism := .registrationPass
  reasons := [txt "new agent registration (identity birth)"]

def protectiveRuling : Ruling where
  allowed := true
  verdict := .permit
  mechanism := .protectivePass
  reasons := [txt "mutation moves the system toward caution — denying it would itself weaken governance"]
  floorCodes := []
  cautionCodes := []

def backstopRuling (mg : MetaguardResult) : Ruling where
  allowed := false
  verdict := .forbid
  mechanism := .noRegressBackstop
  reasons := [txt "reflexive no-regress backstop: controller mutation attempted during a gate " ++
    txt "evaluation — denied without recursion"]
  floorCodes := mg.codes
  cautionCodes := []

def failClosedRuling : Ruling where
  allowed := false
  verdict := .forbid
  mechanism := .errorFailClosed
  reasons := [txt "reflexive gate internal error — fail-closed deny (caution direction)"]
  floorCodes := []
  cautionCodes := []

def fastPass (depth : ℕ) (descriptor : MutationDescriptor) (mg : MetaguardResult) : Gate (Option GateOutcome) := do
  if mg.fired then return none
  let stageWrite ← lift (descriptor.payload.get (txt "stage_write"))
  if isTrue stageWrite then return some stageOutcome
  let newRegistration ← lift (descriptor.payload.get (txt "new_registration"))
  if isTrue newRegistration then return some registrationOutcome
  if mg.protectivePass then
    let outcome ← sealedOutcome draws binding depth descriptor protectiveRuling
    return some outcome
  return none

/-- An evaluation whose gated mutations go to `nested`. -/
def Evaluation.run (nested : Source → Gate GateOutcome) : Evaluation → Gate PdpResult
  | .answer result => pure result
  | .raises e => throw e
  | .mutate attempt next => fun log =>
    match nested attempt log with
    | .ok outcome log' => (next (.ok outcome)).run nested log'
    | .error e log' => (next (.error e)).run nested log'

def askPdp (nested : Source → Gate GateOutcome) (descriptor : MutationDescriptor) : Gate PdpResult := do
  let log ← get
  let request ← lift (buildRequest draws py descriptor log.asked)
  set { log with asked := log.asked + 1 }
  (binding.pdp request).run nested

def gateBound (nested : Source → Gate GateOutcome) (depth : ℕ) (descriptor : MutationDescriptor) :
    Gate GateOutcome := do
  let mg ← lift (evaluateMetaguard py descriptor)
  if mg.noChange then return noChangeOutcome
  -- attempted during an evaluation
  if 0 < depth then
    let outcome ← sealedOutcome draws binding depth descriptor (backstopRuling mg)
    return { outcome with floorCodes := mg.floorCodes }
  match ← fastPass draws binding depth descriptor mg with
  | some outcome => return outcome
  | none =>
    let result ← askPdp draws binding py nested descriptor
    composedOutcome draws binding depth descriptor mg result

def unknownDescriptor : MutationDescriptor where
  surface := txt "unknown"
  mutationClass := txt "unknown"
  subjectId := none
  payload := .ofItems []

def fallback (source : Source) : MutationDescriptor :=
  match source.again with
  | .ok descriptor => descriptor
  | .error _ => unknownDescriptor

def failClosed (depth : ℕ) (source : Source) : Gate GateOutcome :=
  sealedOutcome draws binding depth (fallback source) failClosedRuling

/-- The body of `gate_controller_mutation` under a binding. -/
def gateWith (nested : Source → Gate GateOutcome) (depth : ℕ) (source : Source) : Gate GateOutcome :=
  rescue (lift source.first >>= gateBound draws binding py nested depth)
    (failClosed draws binding depth source)

def gateMutation (depth : ℕ) : Source → Gate GateOutcome :=
  gateWith draws binding py (gateWith draws binding py (fun _ => throw .other) (depth + 1)) depth

end Gate

/-- `gate_controller_mutation` outside of any evaluation. -/
def gateControllerMutation (draws : Draws) (py : Interpreter) (binding : Option Binding) (source : Source) :
    Gate GateOutcome :=
  match binding with
  | none => pure ungated
  | some binding => gateMutation draws binding py 0 source

structure World (σ : Type) where
  store : σ
  log : GateLog

def gated {σ : Type} (draws : Draws) (py : Interpreter) (binding : Option Binding)
    (describe : σ → Except PyErr MutationDescriptor) : EStateM PyErr (World σ) Bool := fun w =>
  match gateControllerMutation draws py binding ⟨describe w.store, describe w.store⟩ w.log with
  | .ok outcome log => .ok outcome.allowed { w with log }
  | .error e log => .error e { w with log }

section Recursion

variable {draws : Draws} {binding : Binding} {py : Interpreter}

theorem gateBound_nested {depth : ℕ} (h : 0 < depth) (nested nested' : Source → Gate GateOutcome) :
    gateBound draws binding py nested depth = gateBound draws binding py nested' depth := by
  funext descriptor
  unfold gateBound
  simp only [if_pos h]

theorem gateMutation_eq (depth : ℕ) :
    gateMutation draws binding py depth =
      gateWith draws binding py (gateMutation draws binding py (depth + 1)) depth := by
  have hinner : ∀ nested nested' : Source → Gate GateOutcome,
      gateWith draws binding py nested (depth + 1) = gateWith draws binding py nested' (depth + 1) := by
    intro nested nested'
    funext source log
    unfold gateWith
    rw [gateBound_nested (Nat.succ_pos depth) nested nested']
  unfold gateMutation
  rw [hinner _ (gateWith draws binding py (fun _ => throw .other) (depth + 1 + 1))]

end Recursion

end TexGovernance.Selfgov
