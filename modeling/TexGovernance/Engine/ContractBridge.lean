import TexGovernance.Contracts.Enforcement
import TexGovernance.Engine.Outcomes

/-!
# The contract bridge (`engine/contract_bridge.py`)

The session registry with its LRU bound, the replay of the action ledger into a new session's
enforcer, the check, and the outcome made of the records the check has added. Python's `repr`
and the format `.3f` of a gap are parameters.
-/

namespace TexGovernance.Engine
open PyStr PyDict Contracts

def isLowerHex (c : CodePoint) : Bool := inRanges [(0x30, 0x39), (0x61, 0x66)] c

/-- The text `str` gives of a UUID: 32 hexadecimal digits in five groups. -/
def isUuidText (s : Str) : Bool :=
  s.length = 36 && s.zipIdx.all fun e =>
    if e.2 ∈ [8, 13, 18, 23] then e.1 = cp '-' else isLowerHex e.1

structure Uuid where
  text : Str
  isUuidText : isUuidText text = true
  deriving DecidableEq

/-- `EvaluationRequest`, as far as the bridge reads it; the validator strips a
session id and drops a blank one. -/
structure EvaluationRequest where
  requestId : Uuid
  actionType : Str
  content : Str
  recipient : Option Str
  channel : Str
  environment : Str
  metadata : List (Str × PyVal)
  agentId : Option Uuid
  sessionId : Option Str
  requestedAt : Str
  sessionId_clean : ∀ s, sessionId = some s → IsClean s

structure ActionLedgerEntry where
  agentId : Uuid
  sessionId : Option Str
  verdict : Str
  actionType : Str
  channel : Str
  environment : Str
  recipient : Option Str
  finalScore : ℚ
  confidence : ℚ
  contentSha256 : Str
  policyVersion : Option Str
  evidenceHash : Option Str
  capabilityViolations : List Str
  asiShortCodes : List Str
  mcpServerIds : List Str
  tools : List Str
  recordedAt : Str

/-- An action ledger at the time of a request: its `list_for_agent`, or `none`
for an object without that method. -/
structure ActionLedger where
  listForAgent : Option (Uuid → ℤ → Except PyErr (List ActionLedgerEntry))

/-- One call of `evaluate_contracts_for_request`. The event ledger answers the
records of an enforcer that has one; those a registry makes have none. -/
structure Call where
  request : EvaluationRequest
  actionLedger : Option ActionLedger
  replayWindow : ℤ
  eventLedger : Option (ContractViolation → Except PyErr Str)

def defaultEventKindPrefix : Str := txt "guardrail."

def agentText (agentId : Option Uuid) : Str :=
  match agentId with
  | some id => id.text
  | none => txt "_anonymous"

def optionalEntry (name : Str) (value : Option Str) : List (Str × PyVal) :=
  value.toList.map fun s => (name, .str s)

def listEntry (name : Str) (values : List Str) : List (Str × PyVal) :=
  if values = [] then [] else [(name, .seq (values.map .str))]

def orNone (value : Option Str) : PyVal :=
  match value with
  | some s => .str s
  | none => .none

def eventKindOf (request : EvaluationRequest) : Str :=
  match request.metadata.lookup (txt "contract_event_kind") with
  | some (.str override) =>
    if strip override = [] then defaultEventKindPrefix ++ request.actionType else strip override
  | _ => defaultEventKindPrefix ++ request.actionType

def buildProposedEvent (request : EvaluationRequest) : ProposedEvent where
  eventKind := eventKindOf request
  actorEntityId := agentText request.agentId
  payload :=
    [(txt "action_type", .str request.actionType), (txt "content", .str request.content),
      (txt "channel", .str request.channel), (txt "environment", .str request.environment),
      (txt "request_id", .str request.requestId.text)] ++
    optionalEntry (txt "recipient") request.recipient ++
    optionalEntry (txt "session_id") request.sessionId ++
    (if request.metadata = [] then [] else [(txt "metadata", .dict request.metadata)])
  proposedAt := request.requestedAt
  upstreamEventIds := []

def neutralStateHash : Str := List.replicate 64 (cp '0')

def buildNeutralState (request : EvaluationRequest) : EcosystemState where
  mirror :=
    [(txt "snapshot_at", .other request.requestedAt), (txt "state_hash", .str neutralStateHash),
      (txt "active_agent_ids", .seq []), (txt "active_tool_ids", .seq []),
      (txt "active_capability_ids", .seq []),
      (txt "active_governance_graph_id", .str (txt "pdp-neutral")),
      (txt "sliding_window_compromise_ratio", .float 0),
      (txt "aggregate_drift_signals", .dict [])]
  activeCapabilityIds := []
  aggregateDriftSignals := []

def proposedEventFromLedgerEntry (entry : ActionLedgerEntry) : ProposedEvent where
  eventKind := defaultEventKindPrefix ++ entry.actionType
  actorEntityId := entry.agentId.text
  payload :=
    [(txt "action_type", .str entry.actionType), (txt "channel", .str entry.channel),
      (txt "environment", .str entry.environment), (txt "verdict", .str entry.verdict),
      (txt "final_score", .float entry.finalScore), (txt "confidence", .float entry.confidence),
      (txt "content_sha256", .str entry.contentSha256),
      (txt "policy_version", orNone entry.policyVersion),
      (txt "evidence_hash", orNone entry.evidenceHash)] ++
    optionalEntry (txt "recipient") entry.recipient ++
    optionalEntry (txt "session_id") entry.sessionId ++
    listEntry (txt "capability_violations") entry.capabilityViolations ++
    listEntry (txt "asi_short_codes") entry.asiShortCodes ++
    listEntry (txt "tools") entry.tools ++
    listEntry (txt "mcp_server_ids") entry.mcpServerIds
  proposedAt := entry.recordedAt
  upstreamEventIds := []

def lastEntries {α : Type} (limit : ℤ) (xs : List α) : List α :=
  if limit ≤ 0 then xs.drop (-limit).toNat else xs.drop (xs.length - limit.toNat)

def ledgerWindowFor (ledger : ActionLedger) (agentId : Uuid) (sessionId : Option Str)
    (limit : ℤ) : List ProposedEvent :=
  match ledger.listForAgent with
  | none => []
  | some listForAgent =>
    match listForAgent agentId (if sessionId.isSome then limit * 4 else limit) with
    | .error _ => []
    | .ok rawEntries =>
      let filtered := if sessionId.isSome then
          rawEntries.filter fun e => e.sessionId = sessionId
        else rawEntries
      (lastEntries limit filtered).map proposedEventFromLedgerEntry

structure LiveEnforcer where
  fixed : ContractEnforcer
  state : EnforcerState

structure ReplayState where
  primed : Bool
  primedAtCount : ℕ

structure SessionEnforcerRegistry where
  contracts : List BehavioralContract
  capacity : ℕ
  enforcers : Dict Str LiveEnforcer
  primeState : Dict Str ReplayState
  contracts_ne : contracts ≠ []
  capacity_pos : 1 ≤ capacity

namespace SessionEnforcerRegistry

def defaultKey : Str := txt "__default__"

def sessionKeyFor (agentId : Option Uuid) (sessionId : Option Str) : Str :=
  match agentId, sessionId with
  | none, none => defaultKey
  | _, _ => agentText agentId ++ txt "::" ++ sessionId.getD (txt "_no_session")

/-- Rounds of the loop in `get_or_create` that drops the oldest sessions. -/
def evict : ℕ → SessionEnforcerRegistry → SessionEnforcerRegistry
  | 0, r => r
  | n + 1, r =>
    match r.enforcers.keys.head? with
    | none => r
    | some evictedKey => evict n { r with
        enforcers := r.enforcers.popFirst
        primeState := r.primeState.pop evictedKey }

def getOrCreate (r : SessionEnforcerRegistry) (key : Str) :
    Except PyErr (LiveEnforcer × SessionEnforcerRegistry) :=
  match r.enforcers.get? key with
  | some live => .ok (live, { r with enforcers := r.enforcers.moveToEnd key })
  | none => do
    let enforcer ← ContractEnforcer.make r.contracts
    let live : LiveEnforcer := ⟨enforcer, initialState⟩
    let r := { r with
      enforcers := r.enforcers.set key live
      primeState := r.primeState.set key ⟨false, 0⟩ }
    .ok (live, evict (r.enforcers.items.length - r.capacity) r)

def isPrimed (r : SessionEnforcerRegistry) (key : Str) : Bool :=
  match r.primeState.get? key with
  | some state => state.primed
  | none => false

def markPrimed (r : SessionEnforcerRegistry) (key : Str) (afterCount : ℕ) :
    SessionEnforcerRegistry :=
  { r with primeState := r.primeState.set key ⟨true, afterCount⟩ }

def writeBack (r : SessionEnforcerRegistry) (key : Str) (live : LiveEnforcer) :
    SessionEnforcerRegistry :=
  { r with enforcers := r.enforcers.set key live }

def forget (r : SessionEnforcerRegistry) (key : Str) : SessionEnforcerRegistry :=
  if key ∈ r.enforcers.keys then
    { r with enforcers := r.enforcers.pop key, primeState := r.primeState.pop key }
  else r

end SessionEnforcerRegistry

def ViolatedClause.text : ViolatedClause → Str
  | .precondition => txt "precondition"
  | .hardInvariant => txt "hard_invariant"
  | .softInvariant => txt "soft_invariant"
  | .hardGovernance => txt "hard_governance"
  | .softGovernance => txt "soft_governance"
  | .postcondition => txt "postcondition"

def contractFindingSource : Str := txt "contracts.behavioral"

def softViolationUncertaintyFlag : Str := txt "contract_soft_violation"

def hardViolationForbidReason : Str :=
  txt "behavioral contract hard violation detected — pipeline short-circuited to FORBID before fusion"

section Bridge

variable (compare : PyVal → Op → Option Str → Except PyErr Bool)
variable (repr : Str → Str) (format3 : ℚ → Str)

def findingOf (v : ContractViolation) : Except PyErr Finding :=
  let message := txt "contract=" ++ repr v.contractId ++
    txt " clause=" ++ ViolatedClause.text v.violatedClause ++
    txt " step=" ++ (Nat.toDigits 10 v.stepIndex).map cp ++
    txt " ltl=" ++ repr v.clauseLtl ++
    (if 0 < v.complianceGap then txt " compliance_gap=" ++ format3 v.complianceGap else [])
  Finding.make contractFindingSource
    (txt "contract:" ++ v.contractId ++ txt ":" ++ ViolatedClause.text v.violatedClause)
    (if v.violatedClause.isSoft then .warning else .critical) message

/-- The end of `evaluate_contracts_for_request`: the outcome of the records a
check has added. -/
def buildOutcome (sessionKey : Option Str) (replayedWindowSize stepIndexAtCheck : ℕ)
    (newViolations : List ContractViolation) : Except PyErr ContractEvaluationOutcome := do
  let findings ← newViolations.mapM (findingOf repr format3)
  let hardSeen := newViolations.any fun v => !v.violatedClause.isSoft
  let softSeen := newViolations.any fun v => v.violatedClause.isSoft
  .ok {
    hasHardViolation := hardSeen
    hasSoftViolation := softSeen && !hardSeen
    findings := findings
    forbidReason := if hardSeen then some hardViolationForbidReason else none
    softUncertaintyFlags := if softSeen && !hardSeen then [softViolationUncertaintyFlag] else []
    rawViolations := newViolations
    sessionKey := sessionKey
    replayedWindowSize := replayedWindowSize
    stepIndexAtCheck := stepIndexAtCheck
    forbidReason_nonblank := by
      intro s hs
      split at hs
      · rw [← Option.some.inj hs]
        decide
      · cases hs
    flags_nonblank := by
      intro s hs
      split at hs
      · rw [List.mem_singleton.mp hs]
        decide
      · cases hs }

/-- The check that a request leads to. The recent window is left out like in
`Check`. -/
def checkOfRequest (request : EvaluationRequest)
    (eventLedger : Option (ContractViolation → Except PyErr Str)) : Check where
  phase := .pre
  agentId := agentText request.agentId
  event := buildProposedEvent request
  state := buildNeutralState request
  ledger := eventLedger

/-- `_prime_enforcer_with_history`: exceptions are swallowed, and of what the
replay does only the violations are taken back. -/
def primeEnforcerWithHistory (live : LiveEnforcer) (history : List ProposedEvent)
    (request : EvaluationRequest) : LiveEnforcer :=
  if history.isEmpty then live
  else
    let replay := history.map fun pastEvent =>
      { checkOfRequest request none with event := pastEvent }
    let state := live.fixed.runChecks compare replay live.state
    { live with state := { state with violations := live.state.violations } }

def resolveSession (r : SessionEnforcerRegistry) (call : Call) :
    Except PyErr (LiveEnforcer × ℕ × SessionEnforcerRegistry) := do
  let request := call.request
  let key := SessionEnforcerRegistry.sessionKeyFor request.agentId request.sessionId
  let (live, r) ← r.getOrCreate key
  match call.actionLedger, request.agentId with
  | some ledger, some agentId =>
    if r.isPrimed key then .ok (live, 0, r)
    else
      let history := ledgerWindowFor ledger agentId request.sessionId call.replayWindow
      .ok (primeEnforcerWithHistory compare live history request, history.length,
        r.markPrimed key history.length)
  | _, _ => .ok (live, 0, r)

def checkRequest (live : LiveEnforcer) (check : Check) (sessionKey : Option Str)
    (replayedWindowSize : ℕ) : Except PyErr ContractEvaluationOutcome × LiveEnforcer :=
  let preCount := live.state.violations.length
  match live.fixed.check compare check live.state with
  | (.error e, state) => (.error e, { live with state })
  | (.ok _, state) =>
    (buildOutcome repr format3 sessionKey replayedWindowSize (live.state.stepIndex + 1)
      (state.violations.drop preCount), { live with state })

structure Bridge where
  enforcer : Option LiveEnforcer
  registry : Option SessionEnforcerRegistry

def evaluateContractsForRequest (b : Bridge) (call : Call) :
    Except PyErr ContractEvaluationOutcome × Bridge :=
  let request := call.request
  match b.registry, b.enforcer with
  | none, none => (.ok neutralOutcome, b)
  | some r, _ =>
    match resolveSession compare r call with
    | .error e => (.error e, b)
    | .ok (live, replayedWindowSize, r) =>
      let key := SessionEnforcerRegistry.sessionKeyFor request.agentId request.sessionId
      let (outcome, live) := checkRequest compare repr format3 live (checkOfRequest request none)
        (some key) replayedWindowSize
      (outcome, { b with registry := some (r.writeBack key live) })
  | none, some live =>
    let (outcome, live) := checkRequest compare repr format3 live
      (checkOfRequest request call.eventLedger) none 0
    (outcome, { b with enforcer := some live })

inductive BridgeStep where
  | request (call : Call)
  | forget (key : Str)

def Bridge.step (b : Bridge) : BridgeStep → Bridge
  | .request call => (evaluateContractsForRequest compare repr format3 b call).2
  | .forget key => { b with registry := b.registry.map fun r => r.forget key }

def Bridge.runSteps (b : Bridge) (steps : List BridgeStep) : Bridge :=
  steps.foldl (Bridge.step compare repr format3) b

end Bridge

end TexGovernance.Engine
