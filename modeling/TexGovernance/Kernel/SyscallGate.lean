import Mathlib.Algebra.Order.Ring.Rat
import Mathlib.Tactic.Linarith
import TexGovernance.Lib.PyDict
import TexGovernance.Lib.PyJson

/-!
# The gate for tool calls

`McpSyscallGate.check` (`kernel_mcp/syscall_gate.py`) with the rate limit of its third layer.
The layers that keep no state are given: what they answer, and whether they raise, is up to
the call and its surroundings. The audit chain is left out, no layer reads it.
-/

namespace TexGovernance.Kernel
open PyStr PyDict PyJson

structure McpCapability (Constraint : Type) where
  capabilityId : Str
  toolName : Str
  parameterConstraints : Constraint
  issuedTo : Str
  expiresAt : ℚ
  requiredTrustTier : Str
  rateLimitPerMinute : ℤ

structure CapabilitySet (Constraint : Type) where
  capabilities : List (McpCapability Constraint)
  agentIdentity : Str
  trustTier : Str
  revokedCapabilityIds : List Str

variable {Constraint Env Input : Type}

def CapabilitySet.findFor (caps : CapabilitySet Constraint) (toolName : Str) :
    List (McpCapability Constraint) :=
  caps.capabilities.filter fun c => c.toolName = toolName ∧ c.capabilityId ∉ caps.revokedCapabilityIds

def tierRanks : List (Str × ℕ) :=
  [(txt "System", 3), (txt "AiNative", 2), (txt "AiEnhanced", 1), (txt "Classic", 0)]

def tierRank (tier : Str) : Except PyErr ℕ :=
  match tierRanks.lookup tier with
  | none => .error .valueError
  | some rank => .ok rank

def tierMeets (actual required : Str) : Except PyErr Bool := do
  let a ← tierRank actual
  let r ← tierRank required
  return r ≤ a

/-- One call of `check`: what it is given, the two clocks it reads, and what
else a layer may consult. -/
structure GateCall (Env Input : Type) where
  toolName : Str
  toolInput : Input
  utcNow : ℚ
  monotonic : ℚ
  env : Env

structure Layers (Constraint Env Input : Type) where
  schema : Env → Str → Input → Except PyErr (Option Str)
  parameterConstraints : Env → Constraint → Input → Except PyErr (Option Str)
  prefilter : Env → Input → Except PyErr (Option Str)
  semanticGate : Env → Str → Input → Except Str (Option Str)
  constitutional : Env → Str → Str → Input → Except PyErr (Option Str)
  recordAudit : Env → Str → Str → Input → Str → Str → Str → Except PyErr Unit

abbrev RateState := Dict Str (List ℚ)

def bucket (state : RateState) (id : Str) : List ℚ := (state.get? id).getD []

/-- `int` of an exact number. -/
def truncated (x : ℚ) : ℤ := if 0 ≤ x then x.floor else x.ceil

def joinCommas (xs : List Str) : Str := [cp ','].intercalate xs

section Gate

variable (caps : CapabilitySet Constraint) (window : ℚ) (layers : Layers Constraint Env Input)

def constraintFailure (call : GateCall Env Input) (cap : McpCapability Constraint) :
    Except PyErr (Option Str) := do
  if cap.expiresAt ≤ call.utcNow then
    return some (cap.capabilityId ++ txt ":expired")
  if cap.issuedTo ≠ caps.agentIdentity then
    return some (cap.capabilityId ++ txt ":wrong-holder")
  if (← tierMeets caps.trustTier cap.requiredTrustTier) = false then
    return some (cap.capabilityId ++ txt ":tier-" ++ caps.trustTier ++ txt "<" ++ cap.requiredTrustTier)
  return (← layers.parameterConstraints call.env cap.parameterConstraints call.toolInput).map
    (cap.capabilityId ++ txt ":" ++ ·)

def choose (call : GateCall Env Input) :
    List (McpCapability Constraint) → List Str → Except PyErr (McpCapability Constraint ⊕ List Str)
  | [], failures => .ok (.inr failures)
  | cap :: rest, failures => do
    match ← constraintFailure caps layers call cap with
    | none => return .inl cap
    | some failure => choose call rest (failures ++ [failure])

def deny (call : GateCall Env Input) (layer reason : Str) : Except PyErr (Bool × Option Str) := do
  layers.recordAudit call.env caps.agentIdentity call.toolName call.toolInput (txt "deny") reason layer
  return (false, some (layer ++ txt ":" ++ reason))

def screen (call : GateCall Env Input) :
    Except PyErr (McpCapability Constraint ⊕ Bool × Option Str) := do
  match ← layers.schema call.env call.toolName call.toolInput with
  | some reason => return .inr (← deny caps layers call (txt "layer1") reason)
  | none =>
    let candidates := caps.findFor call.toolName
    if candidates.isEmpty then
      return .inr (← deny caps layers call (txt "layer2") (txt "no-capability-for-tool"))
    match ← choose caps layers call candidates [] with
    | .inl cap => return .inl cap
    | .inr failures =>
      return .inr (← deny caps layers call (txt "layer2")
        (txt "capability-mismatch:" ++ joinCommas (failures.take 5)))

def expired (now t : ℚ) : Bool := window < now - t

def rateReason (cap : McpCapability Constraint) (count : ℕ) : Except PyErr Str := do
  let limit ← intText cap.rateLimitPerMinute
  let seconds ← intText (truncated window)
  return txt "rate-limited:" ++ natText count ++ txt "/" ++ limit ++ txt "/" ++ seconds ++ txt "s"

def layer3RateLimit (cap : McpCapability Constraint) (now : ℚ) (state : RateState) :
    Except PyErr (Option Str) × RateState :=
  let kept := (bucket state cap.capabilityId).dropWhile (expired window now)
  if cap.rateLimitPerMinute ≤ kept.length then
    ((rateReason window cap kept.length).map some, state.set cap.capabilityId kept)
  else (.ok none, state.set cap.capabilityId (kept ++ [now]))

def afterRateLimit (call : GateCall Env Input) : Except PyErr (Bool × Option Str) := do
  match ← layers.prefilter call.env call.toolInput with
  | some reason => deny caps layers call (txt "layer4") reason
  | none =>
    -- a gate that raises is read as a refusal
    match layers.semanticGate call.env call.toolName call.toolInput with
    | .error name => deny caps layers call (txt "layer5") (txt "semantic-gate-error:" ++ name)
    | .ok (some reason) => deny caps layers call (txt "layer5") reason
    | .ok none =>
      match ← layers.constitutional call.env caps.agentIdentity call.toolName call.toolInput with
      | some reason => deny caps layers call (txt "layer6") reason
      | none =>
        layers.recordAudit call.env caps.agentIdentity call.toolName call.toolInput (txt "allow")
          (txt "all-layers-passed") (txt "all")
        return (true, none)

def check (call : GateCall Env Input) (state : RateState) : Except PyErr (Bool × Option Str) × RateState :=
  match screen caps layers call with
  | .error e => (.error e, state)
  | .ok (.inr answer) => (.ok answer, state)
  | .ok (.inl cap) =>
    match layer3RateLimit window cap call.monotonic state with
    | (.error e, state) => (.error e, state)
    | (.ok (some reason), state) => (deny caps layers call (txt "layer3") reason, state)
    | (.ok none, state) => (afterRateLimit caps layers call, state)

def runCalls (calls : List (GateCall Env Input)) : RateState :=
  calls.foldl (fun state call => (check caps window layers call state).2) Dict.empty

def under (call : GateCall Env Input) : Option (McpCapability Constraint) :=
  match screen caps layers call with
  | .ok (.inl cap) => some cap
  | _ => none

/-- Layer 3 refuses the call in this state. -/
def refuses (cap : McpCapability Constraint) (call : GateCall Env Input) (state : RateState) : Prop :=
  (layer3RateLimit window cap call.monotonic state).1 ≠ .ok none

def passed (call : GateCall Env Input) (state : RateState) : List (Str × ℚ) :=
  match under caps layers call with
  | none => []
  | some cap =>
    if (layer3RateLimit window cap call.monotonic state).1 = .ok none then
      [(cap.capabilityId, call.monotonic)]
    else []

/-- The calls of a run that passed layer 3, with the capability of each. -/
def passes : RateState → List (GateCall Env Input) → List (Str × ℚ)
  | _, [] => []
  | state, call :: rest =>
    passed caps window layers call state ++ passes (check caps window layers call state).2 rest

end Gate

end TexGovernance.Kernel
