import TexGovernance.Engine.ContractBridge
import TexGovernance.Engine.Pdp
import TexGovernance.Lib.SlidingWindow
import Mathlib.Data.Finset.Lattice.Basic

/-!
# The action-cadence circuit-breaker (`deterministic/cadence.py`)

The tracker keeps a window of recent actions for each agent key and the
assessment of each request id, both in dictionaries in the order of last use.
Time stamps are the POSIX seconds of `requested_at`. `str.casefold` and the
format `:g` of a float are parameters.
-/

namespace TexGovernance.Deterministic
open PyStr PyDict
open Engine (Uuid CadenceLevel)

/-- `from_env` lets no window in that is not positive. -/
structure CadenceConfig where
  enabled : Bool
  windowSeconds : ℚ
  softActions : ℕ
  hardActions : ℕ
  softFanout : ℕ
  hardFanout : ℕ
  maxWindowEntries : ℕ
  maxTrackedKeys : ℕ
  maxMemoEntries : ℕ
  windowSeconds_pos : 0 < windowSeconds

namespace CadenceConfig

def default : CadenceConfig := ⟨true, 10, 8, 20, 6, 15, 1024, 8192, 4096, by norm_num⟩

def classify (c : CadenceConfig) (actionCount distinctTargets : ℕ) : CadenceLevel :=
  if c.hardActions ≤ actionCount ∨ c.hardFanout ≤ distinctTargets then .hard
  else if c.softActions ≤ actionCount ∨ c.softFanout ≤ distinctTargets then .soft
  else .clear

end CadenceConfig

structure CadenceAssessment where
  level : CadenceLevel
  tracked : Bool
  key : Str
  actionCount : ℕ
  distinctTargets : ℕ
  windowSeconds : ℚ
  softActions : ℕ
  hardActions : ℕ
  softFanout : ℕ
  hardFanout : ℕ
  reason : Str
  counterfactual : Str
  deriving DecidableEq

def untrackedAssessment (c : CadenceConfig) : CadenceAssessment where
  level := .clear
  tracked := false
  key := []
  actionCount := 0
  distinctTargets := 0
  windowSeconds := c.windowSeconds
  softActions := c.softActions
  hardActions := c.hardActions
  softFanout := c.softFanout
  hardFanout := c.hardFanout
  reason := []
  counterfactual := []

structure AgentRuntimeIdentity where
  agentId : Option Uuid
  externalAgentId : Option Str
  agentName : Option Str
  tenantId : Str
  tools : List Str
  mcpServerIds : List Str
  deriving DecidableEq

/-- `EvaluationRequest`, as far as the tracker reads it. Of the metadata only
the items of a collection under `cadence_targets` count, `none` for an item
that is no string. -/
structure EvaluationRequest where
  requestId : Uuid
  recipient : Option Str
  agentId : Option Uuid
  agentIdentity : Option AgentRuntimeIdentity
  cadenceTargets : List (Option Str)
  requestedAt : ℚ
  deriving DecidableEq

/-- A text that `if text` lets through. -/
def nonEmpty (s : Option Str) : Option Str := s.filter (· ≠ [])

def identityPart (i : AgentRuntimeIdentity) : Option Str :=
  match i.agentId with
  | some id => some (txt "aid:" ++ id.text)
  | none =>
    match nonEmpty i.externalAgentId with
    | some id => some (txt "ext:" ++ id)
    | none => (nonEmpty i.agentName).map (txt "name:" ++ ·)

def deriveKey (r : EvaluationRequest) : Option Str :=
  let tenant := (r.agentIdentity.bind fun i => nonEmpty (some i.tenantId)).getD (txt "default")
  let agentPart := (r.agentIdentity.bind identityPart).or (r.agentId.map (txt "aid:" ++ ·.text))
  agentPart.map (tenant ++ txt "|" ++ ·)

section Tracker

variable (casefold : Str → Str) (formatG : ℚ → Str)

def targetAtom (kind : Str) (s : Str) : Option Str :=
  if strip s = [] then none else some (kind ++ casefold (strip s))

def deriveTargets (r : EvaluationRequest) : Finset Str :=
  (r.recipient.toList.filterMap (targetAtom casefold (txt "recipient:")) ++
    (r.agentIdentity.elim [] fun i => i.tools.filterMap (targetAtom casefold (txt "tool:"))) ++
    (r.agentIdentity.elim [] fun i => i.mcpServerIds.filterMap (targetAtom casefold (txt "mcp:"))) ++
    r.cadenceTargets.reduceOption.filterMap (targetAtom casefold (txt "target:"))).toFinset

structure WindowEntry where
  ts : ℚ
  requestId : Str
  targets : Finset Str
  deriving DecidableEq

def windowTargets (window : List WindowEntry) : Finset Str :=
  window.foldr (fun entry targets => entry.targets ∪ targets) ∅

def bandText (c : CadenceConfig) (level : CadenceLevel) : Str :=
  if level = .hard then
    txt "hard threshold (>= " ++ natText c.hardActions ++ txt " actions or >= " ++
      natText c.hardFanout ++ txt " distinct targets)"
  else
    txt "soft budget (>= " ++ natText c.softActions ++ txt " actions or >= " ++
      natText c.softFanout ++ txt " distinct targets)"

def effectText (level : CadenceLevel) : Str :=
  if level = .hard then txt "structural FORBID" else txt "held for review (PERMIT->ABSTAIN)"

def reasonText (c : CadenceConfig) (key : Str) (level : CadenceLevel)
    (actionCount distinctTargets : ℕ) : Str :=
  txt "Action-cadence circuit-breaker: agent '" ++ key ++ txt "' issued " ++ natText actionCount ++
    txt " action(s) across " ++ natText distinctTargets ++
    txt " distinct target(s) within the last " ++ formatG c.windowSeconds ++
    txt "s window, crossing the " ++ bandText c level ++ txt " — " ++ effectText level ++
    txt ". Machine-speed action cadence is a deterministic, paraphrase-proof signal of autonomous-attack fan-out (Anthropic Nov-2025 disclosure)."

def counterfactualText (c : CadenceConfig) : Str :=
  txt "Had this agent stayed within the soft budget (< " ++ natText c.softActions ++
    txt " actions and < " ++ natText c.softFanout ++ txt " distinct targets per " ++
    formatG c.windowSeconds ++ txt "s), no cadence hold would have fired."

def buildAssessment (c : CadenceConfig) (key : Str) (level : CadenceLevel)
    (actionCount distinctTargets : ℕ) : CadenceAssessment where
  level := level
  tracked := true
  key := key
  actionCount := actionCount
  distinctTargets := distinctTargets
  windowSeconds := c.windowSeconds
  softActions := c.softActions
  hardActions := c.hardActions
  softFanout := c.softFanout
  hardFanout := c.hardFanout
  reason := if level = .clear then []
    else reasonText formatG c key level actionCount distinctTargets
  counterfactual := if level = .clear then [] else counterfactualText formatG c

structure ActionCadenceTracker where
  config : CadenceConfig
  windows : Dict Str (List WindowEntry)
  memo : Dict Str CadenceAssessment

namespace ActionCadenceTracker

def new (config : CadenceConfig) : ActionCadenceTracker := ⟨config, Dict.empty, Dict.empty⟩

/-- The oldest entries are dropped while there are more than `cap`. -/
def evict {ν : Type} (cap : ℕ) (d : Dict Str ν) : Dict Str ν :=
  Dict.popFirst^[d.items.length - cap] d

def insertAction (c : CadenceConfig) (r : EvaluationRequest) (window : List WindowEntry) :
    List WindowEntry :=
  let live := window.dropWhile fun entry => entry.ts ≤ r.requestedAt - c.windowSeconds
  if live.any (·.requestId = r.requestId.text) then live
  else
    let grown := live ++ [⟨r.requestedAt, r.requestId.text, deriveTargets casefold r⟩]
    grown.drop (grown.length - c.maxWindowEntries)

def assessWindow (c : CadenceConfig) (key : Str) (window : List WindowEntry) : CadenceAssessment :=
  buildAssessment formatG c key (c.classify window.length (windowTargets window).card) window.length
    (windowTargets window).card

def observe (t : ActionCadenceTracker) (key : Str) (r : EvaluationRequest) :
    CadenceAssessment × ActionCadenceTracker :=
  let window := insertAction casefold t.config r ((t.windows.get? key).getD [])
  let assessment := assessWindow formatG t.config key window
  let memo := (t.memo.set r.requestId.text assessment).moveToEnd r.requestId.text
  let windows := (t.windows.set key window).moveToEnd key
  (assessment, { t with
    memo := evict t.config.maxMemoEntries memo
    windows := evict t.config.maxTrackedKeys windows })

/-- The text of a UUID is not empty, so every request id is looked up. -/
def assess (t : ActionCadenceTracker) (r : EvaluationRequest) :
    CadenceAssessment × ActionCadenceTracker :=
  if t.config.enabled = false then (untrackedAssessment t.config, t)
  else
    match deriveKey r with
    | none => (untrackedAssessment t.config, t)
    | some key =>
      match t.memo.get? r.requestId.text with
      | some assessment => (assessment, { t with memo := t.memo.moveToEnd r.requestId.text })
      | none => t.observe casefold formatG key r

/-- The tracker after a sequence of calls. -/
def after (t : ActionCadenceTracker) (requests : List EvaluationRequest) : ActionCadenceTracker :=
  requests.foldl (fun t r => (t.assess casefold formatG r).2) t

end ActionCadenceTracker

end Tracker

/-- The key under which the tracker counts a request. -/
def trackedKey (c : CadenceConfig) (r : EvaluationRequest) : Option Str :=
  if c.enabled then deriveKey r else none

end TexGovernance.Deterministic
