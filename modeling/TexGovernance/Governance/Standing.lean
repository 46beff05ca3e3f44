import TexGovernance.Camel.Interpreter
import TexGovernance.Domain.Models
import TexGovernance.Engine.Routing
import TexGovernance.Lib.Actions
import TexGovernance.Lib.PyFloat
import TexGovernance.Provenance.Ledger
import TexGovernance.Zkprov.Commitment

/-!
# Standing governance

`StandingGovernance.decide` (`governance/standing.py`) with the request that it
builds for the deep adjudicator (`domain/evaluation.py`) and the fact that it
seals for a floor ruling (`provenance/floor_seal.py`). A call of a collaborator
is an action on an outside world, and each may raise.
-/

namespace TexGovernance.Governance
open PyStr PyBytes PyRepr PyDict PyJson PyFloat CaseFold Actions
open Domain Provenance Camel
open Engine (Uuid Verdict isUuidText)
open Zkprov (intBase16)

/-- `text.replace(needle, "")`; the number counts what is left of an occurrence. -/
def removeFrom (needle : Str) : ℕ → Str → Str
  | _, [] => []
  | rest + 1, _ :: text => removeFrom needle rest text
  | 0, c :: text =>
    if needle <+: c :: text then removeFrom needle (needle.length - 1) text
    else c :: removeFrom needle 0 text

def remove (needle text : Str) : Str := removeFrom needle 0 text

def isBrace (c : CodePoint) : Bool := c = cp '\x7b' ∨ c = cp '\x7d'

def uuidDigits (text : Str) : Str :=
  let unprefixed := remove (txt "uuid:") (remove (txt "urn:") text)
  remove (txt "-") ((unprefixed.dropWhile isBrace).rdropWhile isBrace)

def uuidText (n : ℕ) : Str :=
  let digits := hex (toBytesBig 16 n)
  digits.take 8 ++ txt "-" ++ (digits.drop 8).take 4 ++ txt "-" ++ (digits.drop 12).take 4 ++
    txt "-" ++ (digits.drop 16).take 4 ++ txt "-" ++ digits.drop 20

def asUuid (value : Str) : Option Uuid :=
  if (uuidDigits value).length ≠ 32 then none
  else match intBase16 (uuidDigits value) with
    | .error _ => none
    | .ok n =>
      if 0 ≤ n ∧ n < 2 ^ 128 then
        if h : isUuidText (uuidText n.toNat) then some ⟨uuidText n.toNat, h⟩ else none
      else none

structure EvaluationRequest where
  requestId : Uuid
  actionType : Str
  content : Str
  recipient : Option Str
  channel : Str
  environment : Str
  agentId : Option Uuid
  sessionId : Option Str
  metadata : List (Str × Str)
  deriving DecidableEq

/-- A text field of at least one and at most `n` characters, normalised to a
text that is not blank. -/
def requiredField (n : ℕ) (normalize : Str → Str) (value : Str) : Except PyErr Str :=
  if value ≠ [] ∧ fitsField n value then
    if normalize (strip value) = [] then .error .valueError else .ok (normalize (strip value))
  else .error .valueError

def optionalField (n : ℕ) : Option Str → Except PyErr (Option Str)
  | none => .ok none
  | some value =>
    if fitsField n value then .ok (if strip value = [] then none else some (strip value))
    else .error .valueError

def EvaluationRequest.make (lower : Str → Str) (requestId : Uuid) (actionType content : Str)
    (recipient : Option Str) (channel environment : Str) (agentId : Option Uuid)
    (sessionId : Option Str) (metadata : List (Str × Str)) : Except PyErr EvaluationRequest := do
  let actionType ← requiredField 100 lower actionType
  let content ← requiredField 50000 id content
  let recipient ← optionalField 500 recipient
  let channel ← requiredField 50 lower channel
  let environment ← requiredField 50 lower environment
  let sessionId ← optionalField 200 sessionId
  return { requestId, actionType, content, recipient, channel, environment, agentId, sessionId, metadata }

structure EvaluationResponse where
  decisionId : Uuid
  verdict : Verdict
  confidence : UnitScore
  evidenceHash : Option Str

/-- What `execute` returns; a bare response has no decision and so no metadata. -/
structure EvaluateActionResult where
  response : EvaluationResponse
  decisionMetadata : Dict Str PyObj

inductive ForbidScope where
  | identity
  | lifecycle
  | surface
  | deep
  | deepError
  deriving DecidableEq

def ForbidScope.text : ForbidScope → Str
  | .identity => txt "identity"
  | .lifecycle => txt "lifecycle"
  | .surface => txt "surface"
  | .deep => txt "deep"
  | .deepError => txt "deep_error"

def Verdict.text : Verdict → Str
  | .permit => txt "PERMIT"
  | .abstain => txt "ABSTAIN"
  | .forbid => txt "FORBID"

inductive Tier where
  | floor
  | deep
  deriving DecidableEq

structure PdpIntegrityLabel where
  integrity : CapabilityLevel
  confidentiality : ConfidentialityLevel
  labelId : Str
  source : Str
  basis : Str

structure DecisionOutcome where
  verdict : Verdict
  released : Bool
  reason : Str
  tier : Tier
  agentId : Option Uuid := none
  decisionId : Option Uuid := none
  evidenceHash : Option Str := none
  held : Bool := false
  response : Option EvaluationResponse := none
  forbidScope : Option ForbidScope := none
  allowedTools : Option (List Str) := none
  surfaceSealHash : Option Str := none
  integrityLabel : Option PdpIntegrityLabel := none

structure HeldDecision where
  agentId : Uuid
  kind : Str
  confidence : UnitScore
  note : Str
  detail : Dict Str PyObj
  decisionId : Option Str
  anchorSha256 : Option Str
  tenantId : Str

structure ForbidFeed where
  actionType : Str
  recipient : Option Str
  tenant : Str
  decisionId : Option Str
  reason : Str

structure LocalForbidFeed where
  actionType : Str
  recipient : Str
  agentId : Str
  tenant : Str

abbrev Act (ε σ α : Type) := EStateM ε σ α

/-- The caller's `agent_id`: a UUID or a text. -/
inductive AgentRef where
  | uuid (id : Uuid)
  | text (value : Str)

def AgentRef.str : AgentRef → Str
  | .uuid id => id.text
  | .text value => value

def AgentRef.asUuid : AgentRef → Option Uuid
  | .uuid id => some id
  | .text value => Governance.asUuid value

/-- The arguments of `decide`. -/
structure Ask where
  tenant : Str
  actionType : Str
  content : Str
  channel : Option Str
  environment : Option Str
  recipient : Option Str
  agentId : Option AgentRef
  agentExternalId : Option Str
  sessionId : Option Str

structure Deciders (ε σ : Type) where
  fold : CaseFolding
  lower : Str → Str
  registryGet : Uuid → Act ε σ (Option (AgentIdentity fold))
  registryListAll : Act ε σ (List (AgentIdentity fold))
  evaluate : Option (EvaluationRequest → Act ε σ EvaluateActionResult)
  uuid4 : σ → Uuid × σ
  defaultChannel : Str
  defaultEnvironment : Str

structure Observers (ε σ : Type) (fold : CaseFolding) where
  held : Option (HeldDecision → Act ε σ Unit)
  forbidSink : Option (ForbidFeed → Act ε σ Unit)
  localForbidSink : Option (LocalForbidFeed → Act ε σ Unit)
  decisionLedger : Option (SealedFact → Act ε σ SealedFactRecord)
  now : σ → Str × σ
  isprintable : CodePoint → Bool
  surfaceDigest : CapabilitySurface fold → Act ε σ Str
  labelLiveOn : σ → Bool
  pdpLabel : PyObj → DecisionOutcome → Act ε σ PdpIntegrityLabel

def draw {ε σ α : Type} (f : σ → α × σ) : Act ε σ α := fun s => .ok (f s).1 (f s).2

section Standing

variable {ε σ : Type} (d : Deciders ε σ) (o : Observers ε σ d.fold)

def agentTenant (agent : AgentIdentity d.fold) : Str := d.fold.clean agent.tenantId.text

def isGovernable (agent : AgentIdentity d.fold) : Bool :=
  agent.lifecycleStatus ∉ [AgentLifecycleStatus.sleeping, .revoked, .quarantined]

def listTenantAgents (tenant : Str) : Act ε σ (List (AgentIdentity d.fold)) := do
  let agents ← attempt d.registryListAll
  return (agents.getD []).filter fun a => agentTenant d a = tenant

def resolveById (tenant : Str) (agentId : Option AgentRef) : Act ε σ (Option (AgentIdentity d.fold)) :=
  match agentId.bind AgentRef.asUuid with
  | none => pure none
  | some uid => do
    let agent ← attempt (d.registryGet uid)
    return agent.join.filter fun a => agentTenant d a = tenant

def resolveAgent (tenant : Str) (agentId : Option AgentRef) (agentExternalId : Option Str) :
    Act ε σ (Option (AgentIdentity d.fold)) := do
  match ← resolveById d tenant agentId with
  | some agent => return some agent
  | none =>
    match agentExternalId with
    | none => return none
    | some name =>
      if name = [] then return none
      let agents ← listTenantAgents d tenant
      return agents.find? fun a => a.name.text = name

def withinSurface {fold : CaseFolding} (surface : CapabilitySurface fold) (actionType channel environment : Str)
    (recipient : Option Str) : Bool :=
  surface.permitsActionType actionType && surface.permitsChannel channel &&
    surface.permitsEnvironment environment && surface.permitsRecipient recipient

def uninspectableActionTypes : List Str := [txt "https_opaque", txt "http_opaque_body"]

structure FloorRuling where
  verdict : Verdict
  scope : Option ForbidScope
  reason : Str
  reasonCode : Option Str
  actionType : Str
  channel : Str
  environment : Str
  recipient : Option Str
  tenant : Str
  agentId : Option Str

def floorClaim (isprintable : CodePoint → Bool) (r : FloorRuling) : Str :=
  let agent := match r.agentId with
    | some agent => if agent = [] then txt "unknown" else agent
    | none => txt "unknown"
  let scope := match r.scope with
    | some scope => scope.text
    | none => txt "None"
  txt "floor " ++ Verdict.text r.verdict ++ txt " (scope=" ++ scope ++ txt ") for action_type=" ++
    repr isprintable r.actionType ++ txt " agent=" ++ agent ++ txt " tenant=" ++ r.tenant ++
    txt " — DETERMINISTIC structural floor; authorship+integrity sealed; " ++
    txt "NOT a six-layer adjudication, correctness NOT proven"

def floorDetail (r : FloorRuling) (decisionId occurredAt : Str) : Dict Str PyObj := .ofItems
  [(txt "verdict", .str (Verdict.text r.verdict)),
   (txt "tier", .str (txt "floor")),
   (txt "forbid_scope", optionalText (r.scope.map ForbidScope.text)),
   (txt "reason", .str r.reason),
   (txt "reason_code", optionalText r.reasonCode),
   (txt "action_type", .str r.actionType),
   (txt "channel", .str r.channel),
   (txt "environment", .str r.environment),
   (txt "recipient", optionalText r.recipient),
   (txt "tenant", .str r.tenant),
   (txt "agent_id", optionalText r.agentId),
   (txt "released", .bool false),
   (txt "decision_id", .str decisionId),
   (txt "occurred_at", .str occurredAt)]

def buildFloorDecisionFact (r : FloorRuling) (decisionId : Str) : Act ε σ SealedFact := do
  let occurredAt ← draw o.now
  let factId ← draw d.uuid4
  let createdAt ← draw o.now
  return { factId := factId.text
           kind := .enforcement
           subjectId := some decisionId
           claim := floorClaim o.isprintable r
           evidence := none
           maturity := .researchSolid
           detail := floorDetail r decisionId occurredAt
           createdAt }

def sealFloorDecision (append : SealedFact → Act ε σ SealedFactRecord) (r : FloorRuling)
    (decisionId : Str) : Act ε σ (Option SealedFactRecord) := do
  let fact ← buildFloorDecisionFact d o r decisionId
  if fitsField 2000 fact.claim then attempt (append fact) else return none

def sealFloor (r : FloorRuling) : Act ε σ (Option Uuid × Option Str) :=
  match o.decisionLedger with
  | none => pure (none, none)
  | some append => do
    let decisionId ← draw d.uuid4
    let record ← sealFloorDecision d o append r decisionId.text
    return (some decisionId, record.map SealedFactRecord.recordHash)

structure Place where
  actionType : Str
  channel : Str
  environment : Str
  recipient : Option Str
  tenant : Str

def forbidFloor (agentId : Option Uuid) (reason : Str) (tier : Tier) (scope : ForbidScope) (place : Place)
    (agentExternalId : Option Str) : Act ε σ DecisionOutcome := do
  let (decisionId, evidenceHash) ← sealFloor d o
    { verdict := .forbid, scope := some scope, reason, reasonCode := none
      actionType := place.actionType, channel := place.channel, environment := place.environment
      recipient := place.recipient, tenant := place.tenant
      agentId := match agentId with
        | some id => some id.text
        | none => agentExternalId }
  return { verdict := .forbid, released := false, reason, tier, agentId, decisionId, evidenceHash
           forbidScope := some scope }

def raiseHold (agentId : Option Uuid) (kind : Str) (confidence : UnitScore) (note : Str)
    (detail : Dict Str PyObj) (decisionId anchorSha256 : Option Str) (tenantId : Str) : Act ε σ Unit :=
  match o.held, agentId with
  | some append, some agentId => do
    let _ ← attempt (append
      { agentId, kind, confidence, note, detail, decisionId, anchorSha256
        tenantId := if tenantId = [] then txt "default" else tenantId })
    return ()
  | _, _ => pure ()

def uninspectableReason : Str := txt "Un-inspectable content; held for a human (not released)."

def uninspectableNote (place : Place) : Str :=
  let destination := match place.recipient with
    | some recipient => if recipient = [] then txt "an unknown destination" else recipient
    | none => txt "an unknown destination"
  if place.actionType = txt "http_opaque_body" then
    txt "An agent is sending a request to " ++ destination ++ txt " whose body is in a " ++
      txt "format I can't decode. I can't see what's inside, so I can't " ++
      txt "clear it on my own — it's yours to decide."
  else
    txt "An agent is sending traffic to " ++ destination ++ txt " over a channel I can't " ++
      txt "read. I can't see what's inside, so I can't clear it on my own — " ++
      txt "it's yours to decide."

def uninspectableCode (place : Place) : Str :=
  if place.actionType = txt "http_opaque_body" then txt "uninspectable_request_body"
  else txt "uninspectable_tls_content"

def abstainUninspectable (agentId : Option Uuid) (place : Place) : Act ε σ DecisionOutcome := do
  raiseHold d o agentId place.actionType 0 (uninspectableNote place)
    (.ofItems [(txt "channel", .str place.channel), (txt "environment", .str place.environment),
      (txt "recipient", optionalText place.recipient), (txt "tenant_id", .str place.tenant),
      (txt "dimension", .str (txt "execution")), (txt "reason", .str (uninspectableCode place))])
    none none place.tenant
  let (decisionId, evidenceHash) ← sealFloor d o
    { verdict := .abstain, scope := none, reason := uninspectableReason
      reasonCode := some (uninspectableCode place)
      actionType := place.actionType, channel := place.channel, environment := place.environment
      recipient := place.recipient, tenant := place.tenant, agentId := agentId.map Uuid.text }
  return { verdict := .abstain, released := false, reason := uninspectableReason, tier := .floor
           agentId, decisionId, evidenceHash, held := true }

def spokenAgent (agent : AgentIdentity d.fold) (agentExternalId : Option Str) : Option Str :=
  let external := strip (agentExternalId.getD [])
  if external ≠ [] then some external
  else if strip agent.name.text ≠ [] then some (strip agent.name.text) else none

def executeDeep (evaluate : EvaluationRequest → Act ε σ EvaluateActionResult) (agent : AgentIdentity d.fold)
    (place : Place) (ask : Ask) : Act ε σ (Option EvaluateActionResult) := do
  let requestId ← draw d.uuid4
  let spoken := spokenAgent d agent ask.agentExternalId
  match EvaluationRequest.make d.lower requestId place.actionType ask.content place.recipient
      place.channel place.environment (some agent.agentId) ask.sessionId
      ((spoken.map fun name => (txt "agent", name)).toList) with
  | .error _ => return none
  | .ok request => attempt (evaluate request)

def attachPdpLabel (outcome : DecisionOutcome) (ifcLabels : Option PyObj) : Act ε σ DecisionOutcome := do
  if !o.labelLiveOn (← get) then return outcome
  match ifcLabels with
  | some (.dict labels) =>
    match ← attempt (o.pdpLabel (.dict labels) outcome) with
    | some label => return { outcome with integrityLabel := some label }
    | none => return outcome
  | _ => return outcome

def heldNote (actionType : Str) : Str :=
  txt "I need to know if I can let this through (" ++ actionType ++ txt "). It's yours to decide."

def adjudicateDeep (evaluate : EvaluationRequest → Act ε σ EvaluateActionResult)
    (agent : AgentIdentity d.fold) (place : Place) (ask : Ask) : Act ε σ DecisionOutcome := do
  match ← executeDeep d evaluate agent place ask with
  | none =>
    forbidFloor d o (some agent.agentId) (txt "Deep adjudication raised; failing closed.") .deep
      .deepError place none
  | some result =>
    let response := result.response
    match response.verdict with
    | .permit =>
      attachPdpLabel d o
        { verdict := .permit, released := true, reason := txt "Released by full adjudication."
          tier := .deep, agentId := some agent.agentId, decisionId := some response.decisionId
          evidenceHash := response.evidenceHash, response := some response }
        (result.decisionMetadata.get? (txt "ifc_labels"))
    | .abstain =>
      raiseHold d o (some agent.agentId) place.actionType response.confidence (heldNote place.actionType)
        (.ofItems [(txt "channel", .str place.channel), (txt "environment", .str place.environment),
          (txt "recipient", optionalText place.recipient), (txt "tenant_id", .str place.tenant),
          (txt "dimension", .str (txt "execution")),
          (txt "decision_id", .str response.decisionId.text),
          (txt "evidence_hash", optionalText response.evidenceHash),
          (txt "agent_name", optionalText (spokenAgent d agent ask.agentExternalId)),
          (txt "content_excerpt", .str (ask.content.take 280))])
        (some response.decisionId.text) response.evidenceHash place.tenant
      return { verdict := .abstain, released := false, reason := txt "Held for a human; not released."
               tier := .deep, agentId := some agent.agentId, decisionId := some response.decisionId
               evidenceHash := response.evidenceHash, held := true, response := some response }
    | .forbid =>
      return { verdict := .forbid, released := false, reason := txt "Forbidden by full adjudication."
               tier := .deep, agentId := some agent.agentId, decisionId := some response.decisionId
               evidenceHash := response.evidenceHash, response := some response
               forbidScope := some .deep }

def attachSurfacePiggyback (outcome : DecisionOutcome) (surface : CapabilitySurface d.fold) :
    Act ε σ DecisionOutcome := do
  if surface.allowedTools.texts = [] then return outcome
  match ← attempt (o.surfaceDigest surface) with
  | some digest => return { outcome with
      allowedTools := some surface.allowedTools.texts, surfaceSealHash := some digest }
  | none => return outcome

/-- `value or default`. -/
def orDefault (value : Option Str) (default : Str) : Str :=
  match value with
  | some text => if text = [] then default else text
  | none => default

def placeOf (ask : Ask) : Place where
  actionType := ask.actionType
  channel := orDefault ask.channel d.defaultChannel
  environment := orDefault ask.environment d.defaultEnvironment
  recipient := ask.recipient
  tenant := d.fold.clean ask.tenant

def agentRefOf (ask : Ask) : Option Str :=
  match ask.agentExternalId with
  | some name => if name = [] then ask.agentId.map AgentRef.str else some name
  | none => ask.agentId.map AgentRef.str

def decideCore (ask : Ask) : Act ε σ DecisionOutcome := do
  let place := placeOf d ask
  match ← resolveAgent d place.tenant ask.agentId ask.agentExternalId with
  | none =>
    forbidFloor d o none
      (txt "No sealed identity for this agent. Forbidding until discovery " ++ txt "seals it.")
      .floor .identity place (agentRefOf ask)
  | some agent =>
    if !isGovernable d agent then
      forbidFloor d o (some agent.agentId) (txt "Agent is not in a running, governable state.")
        .floor .lifecycle place none
    else if !withinSurface agent.capabilitySurface place.actionType place.channel place.environment
        place.recipient then
      forbidFloor d o (some agent.agentId)
        (txt "Action falls outside the agent's sealed capability surface.") .floor .surface place none
    else if place.actionType ∈ uninspectableActionTypes then
      abstainUninspectable d o (some agent.agentId) place
    else match d.evaluate with
      | none =>
        forbidFloor d o (some agent.agentId)
          (txt "Deep adjudication unavailable; refusing to release on the " ++ txt "structural floor alone.")
          .floor .deepError place none
      | some evaluate =>
        let outcome ← adjudicateDeep d o evaluate agent place ask
        if outcome.released then attachSurfacePiggyback d o outcome agent.capabilitySurface
        else return outcome

def maybeFeedForbidSet (outcome : DecisionOutcome) (ask : Ask) : Act ε σ Unit :=
  match o.forbidSink with
  | none => pure ()
  | some sink =>
    if outcome.verdict ≠ .forbid then pure ()
    else if outcome.forbidScope ∉ [some ForbidScope.surface, some .deep] then pure ()
    else do
      let _ ← attempt (sink
        { actionType := ask.actionType, recipient := ask.recipient, tenant := ask.tenant
          decisionId := outcome.decisionId.map Uuid.text, reason := outcome.reason })
      return ()

def maybeFeedLocalForbidSet (outcome : DecisionOutcome) (ask : Ask) : Act ε σ Unit :=
  match o.localForbidSink, ask.recipient, ask.agentId with
  | some sink, some recipient, some agentId =>
    if outcome.verdict ≠ .forbid ∨ recipient = [] then pure ()
    else do
      let _ ← attempt (sink
        { actionType := ask.actionType, recipient, agentId := agentId.str, tenant := ask.tenant })
      return ()
  | _, _, _ => pure ()

def decide (ask : Ask) : Act ε σ DecisionOutcome := do
  let outcome ← decideCore d o ask
  maybeFeedForbidSet d o outcome ask
  maybeFeedLocalForbidSet d o outcome ask
  return outcome

end Standing

end TexGovernance.Governance
