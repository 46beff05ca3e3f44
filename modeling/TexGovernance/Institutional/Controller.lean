import Mathlib.Data.Rat.Defs
import TexGovernance.Engine.ContractBridge
import TexGovernance.Lib.Pipeline
import TexGovernance.Lib.PyDict
import TexGovernance.Lib.PyJson
import TexGovernance.Lib.PyRepr

/-!
# The governance graph and its controller

`LegalState`, `LegalTransition` and `GovernanceGraph` with their lookups and
`_validate_topology` (`institutional/governance_graph.py`), over the sanctions
and restorative paths of `institutional/sanctions.py`.
-/

namespace TexGovernance.Institutional
open PyStr PyRepr PyDict

inductive ManifestValue where
  | null
  | bool (b : Bool)
  | int (z : ℤ)
  | float (q : ℚ)
  | str (s : Str)
  | list (items : List ManifestValue)
  | dict (items : List (Str × ManifestValue))

structure LegalState where
  stateId : Str
  predicateLtl : Str
  description : Str
  deriving DecidableEq

structure LegalTransition where
  fromState : Str
  toState : Str
  triggeredBy : Str
  edgeKey : Str
  ruleId : Str
  sanctionId : Option Str
  restorativePathId : Option Str
  timing : Option (Dict Str ℤ)
  sanctionOnViolation : Option Str
  preconditionLtl : Str
  metadata : Option (Dict Str ManifestValue)

structure Sanction where
  sanctionId : Str
  description : Str
  costToActor : ℚ
  costToSystem : ℚ
  enforcementAction : Str
  tier : Option ℤ
  fineRate : Option ℚ
  fineFloor : Option ℚ
  durationRounds : Option ℤ
  deriving DecidableEq

structure RestorativePath where
  pathId : Str
  description : Str
  restorativeEventKinds : List Str
  targetLegalStateId : Str
  restorationKind : Str
  condition : Option (Dict Str ManifestValue)

structure GovernanceGraph where
  graphId : Str
  version : Str
  states : List LegalState
  transitions : List LegalTransition
  sanctions : List Sanction
  restorativePaths : List RestorativePath
  manifestSemanticSha256 : Str
  schemaVersion : Str
  interpreterName : Str
  interpreterVersion : Str
  policySurface : Option (Dict Str ManifestValue)
  policyProgram : Option (Dict Str ManifestValue)
  contracts : Option (Dict Str ManifestValue)

inductive TopologyError where
  | noStates
  | duplicateStateId
  | missingEdgeKey (fromState toState : Str)
  | badEdgeKey (edgeKey : Str)
  | edgeKeyDisagrees (edgeKey fromState toState : Str)
  | ruleIdDisagrees (edgeKey keyRule ruleId : Str)
  | duplicateEdgeKey (edgeKey : Str)
  | unknownFromState (edgeKey fromState : Str)
  | unknownToState (edgeKey toState : Str)
  | missingTriggeredBy (edgeKey : Str)
  | conflictingSanctions (edgeKey sanctionId sanctionOnViolation : Str)
  | unknownSanction (edgeKey sanctionId : Str)
  | unknownRestorativePath (edgeKey pathId : Str)
  | ambiguousDispatch (fromState triggeredBy : Str)
  | unknownTarget (pathId target : Str)
  deriving DecidableEq

def TopologyError.message (repr : Str → Str) : TopologyError → Str
  | .noStates => txt "manifest declares no states"
  | .duplicateStateId => txt "duplicate state_id in manifest"
  | .missingEdgeKey fromState toState =>
    txt "transition " ++ fromState ++ txt "->" ++ toState ++ txt " missing edge_key"
  | .badEdgeKey edgeKey =>
    txt "transition edge_key " ++ repr edgeKey ++ txt " does not match <RULE_ID>:<from>-><to> format"
  | .edgeKeyDisagrees edgeKey fromState toState =>
    txt "transition edge_key " ++ repr edgeKey ++ txt " disagrees with declared from_state=" ++
      repr fromState ++ txt "/to_state=" ++ repr toState
  | .ruleIdDisagrees edgeKey keyRule ruleId =>
    txt "transition edge_key " ++ repr edgeKey ++ txt " has rule_id " ++ repr keyRule ++
      txt " but field rule_id=" ++ repr ruleId
  | .duplicateEdgeKey edgeKey => txt "duplicate edge_key " ++ repr edgeKey
  | .unknownFromState edgeKey fromState =>
    txt "transition " ++ repr edgeKey ++ txt " references unknown from_state " ++ repr fromState
  | .unknownToState edgeKey toState =>
    txt "transition " ++ repr edgeKey ++ txt " references unknown to_state " ++ repr toState
  | .missingTriggeredBy edgeKey => txt "transition " ++ repr edgeKey ++ txt " missing triggered_by"
  | .conflictingSanctions edgeKey sanctionId sanctionOnViolation =>
    txt "transition " ++ repr edgeKey ++ txt " has conflicting sanction_id (" ++ repr sanctionId ++
      txt ") and sanction_on_violation (" ++ repr sanctionOnViolation ++ txt ")"
  | .unknownSanction edgeKey sanctionId =>
    txt "transition " ++ repr edgeKey ++ txt " references unknown sanction_id " ++ repr sanctionId
  | .unknownRestorativePath edgeKey pathId =>
    txt "transition " ++ repr edgeKey ++ txt " references unknown restorative_path_id " ++ repr pathId
  | .ambiguousDispatch fromState triggeredBy =>
    txt "two transitions share (from_state=" ++ repr fromState ++ txt ", triggered_by=" ++
      repr triggeredBy ++ txt ") — Controller dispatch would be ambiguous"
  | .unknownTarget pathId target =>
    txt "restorative_path " ++ repr pathId ++ txt " targets unknown state " ++ repr target

/-- `effective_sanction_id`; an empty `sanction_id` counts as none. -/
def LegalTransition.effectiveSanctionId (t : LegalTransition) : Except TopologyError (Option Str) :=
  match t.sanctionId, t.sanctionOnViolation with
  | some sanctionId, some onViolation =>
    if sanctionId ≠ onViolation then .error (.conflictingSanctions t.edgeKey sanctionId onViolation)
    else .ok (some sanctionId)
  | some sanctionId, none => .ok (if sanctionId = [] then none else some sanctionId)
  | none, onViolation => .ok onViolation

def isRuleChar (c : CodePoint) : Bool :=
  inRanges [(0x30, 0x39), (0x41, 0x5a), (0x5f, 0x5f), (0x61, 0x7a)] c

def isStateChar (c : CodePoint) : Bool := inRanges [(0x30, 0x39), (0x5f, 0x5f), (0x61, 0x7a)] c

def isStateStart (c : CodePoint) : Bool := inRanges [(0x5f, 0x5f), (0x61, 0x7a)] c

def isStateName : Str → Bool
  | [] => false
  | c :: rest => isStateStart c && rest.all isStateChar

/-- The groups of `_EDGE_KEY_RE`: rule, source and target. The pattern's `$` lets
a line break follow. -/
def edgeKeyParts? (edgeKey : Str) : Option (Str × Str × Str) :=
  let (rule, rest) := edgeKey.span isRuleChar
  match rest with
  | colon :: rest =>
    let (source, rest) := rest.span isStateChar
    match rest with
    | dash :: angle :: rest =>
      let (target, rest) := rest.span isStateChar
      if rule ≠ [] ∧ colon = cp ':' ∧ isStateName source = true ∧ dash = cp '-' ∧ angle = cp '>' ∧
          isStateName target = true ∧ rest ∈ [[], [cp '\n']] then some (rule, source, target)
      else none
    | _ => none
  | [] => none

def refuseIf (bad : Prop) [Decidable bad] (e : TopologyError) : Except TopologyError Unit :=
  if bad then .error e else .ok ()

def checkEdgeKey (t : LegalTransition) : Except TopologyError Unit := do
  refuseIf (t.edgeKey = []) (.missingEdgeKey t.fromState t.toState)
  match edgeKeyParts? t.edgeKey with
  | none => .error (.badEdgeKey t.edgeKey)
  | some (rule, source, target) => do
    refuseIf (source ≠ t.fromState ∨ target ≠ t.toState)
      (.edgeKeyDisagrees t.edgeKey t.fromState t.toState)
    refuseIf (t.ruleId ≠ [] ∧ rule ≠ t.ruleId) (.ruleIdDisagrees t.edgeKey rule t.ruleId)

section Topology

variable (stateIds sanctionIds pathIds : List Str)

def checkTransition (seenEdgeKeys : List Str) (seenPairs : List (Str × Str)) (t : LegalTransition) :
    Except TopologyError Unit := do
  checkEdgeKey t
  refuseIf (t.edgeKey ∈ seenEdgeKeys) (.duplicateEdgeKey t.edgeKey)
  refuseIf (t.fromState ∉ stateIds) (.unknownFromState t.edgeKey t.fromState)
  refuseIf (t.toState ∉ stateIds) (.unknownToState t.edgeKey t.toState)
  refuseIf (t.triggeredBy = []) (.missingTriggeredBy t.edgeKey)
  let sanctionId ← t.effectiveSanctionId
  refuseIf (∃ id ∈ sanctionId, id ∉ sanctionIds) (.unknownSanction t.edgeKey (sanctionId.getD []))
  refuseIf (∃ id ∈ t.restorativePathId, id ∉ pathIds)
    (.unknownRestorativePath t.edgeKey (t.restorativePathId.getD []))
  refuseIf ((t.fromState, t.triggeredBy) ∈ seenPairs) (.ambiguousDispatch t.fromState t.triggeredBy)

def checkTransitions : List Str → List (Str × Str) → List LegalTransition → Except TopologyError Unit
  | _, _, [] => .ok ()
  | seenEdgeKeys, seenPairs, t :: rest => do
    checkTransition stateIds sanctionIds pathIds seenEdgeKeys seenPairs t
    checkTransitions (t.edgeKey :: seenEdgeKeys) ((t.fromState, t.triggeredBy) :: seenPairs) rest

def checkTargets : List RestorativePath → Except TopologyError Unit
  | [] => .ok ()
  | p :: rest => do
    refuseIf (p.targetLegalStateId ∉ stateIds) (.unknownTarget p.pathId p.targetLegalStateId)
    checkTargets rest

end Topology

def validateTopology (g : GovernanceGraph) : Except TopologyError Unit := do
  refuseIf (g.states = []) .noStates
  refuseIf (¬ (g.states.map LegalState.stateId).Nodup) .duplicateStateId
  checkTransitions (g.states.map LegalState.stateId) (g.sanctions.map Sanction.sanctionId)
    (g.restorativePaths.map RestorativePath.pathId) [] [] g.transitions
  checkTargets (g.states.map LegalState.stateId) g.restorativePaths

inductive LookupError where
  | keyError
  | ambiguous (edgeKeys : List Str)
  deriving DecidableEq

namespace GovernanceGraph

variable (g : GovernanceGraph)

def lookupSanction (sanctionId : Str) : Except LookupError Sanction :=
  match g.sanctions.find? fun s => s.sanctionId = sanctionId with
  | some s => .ok s
  | none => .error .keyError

def lookupRestorativePath (pathId : Str) : Except LookupError RestorativePath :=
  match g.restorativePaths.find? fun p => p.pathId = pathId with
  | some p => .ok p
  | none => .error .keyError

def findTransition (fromState triggeredBy : Str) : Except LookupError (Option LegalTransition) :=
  match g.transitions.filter fun t => t.fromState = fromState ∧ t.triggeredBy = triggeredBy with
  | [] => .ok none
  | [t] => .ok (some t)
  | found => .error (.ambiguous (found.map LegalTransition.edgeKey))

end GovernanceGraph

structure EdgeValid (stateIds sanctionIds pathIds : List Str) (t : LegalTransition) : Prop where
  parts : ∃ rule, edgeKeyParts? t.edgeKey = some (rule, t.fromState, t.toState) ∧
    (t.ruleId = [] ∨ t.ruleId = rule)
  source : t.fromState ∈ stateIds
  target : t.toState ∈ stateIds
  triggered : t.triggeredBy ≠ []
  sanction : ∃ sanctionId, t.effectiveSanctionId = .ok sanctionId ∧ ∀ id ∈ sanctionId, id ∈ sanctionIds
  restorative : ∀ id ∈ t.restorativePathId, id ∈ pathIds

theorem refuseIf_ok {bad : Prop} [Decidable bad] {e : TopologyError} {u : Unit}
    (h : refuseIf bad e = .ok u) : ¬ bad := by
  intro hbad
  rw [refuseIf, if_pos hbad] at h
  cases h

theorem checkEdgeKey_ok {t : LegalTransition} {u : Unit} (h : checkEdgeKey t = .ok u) :
    ∃ rule, edgeKeyParts? t.edgeKey = some (rule, t.fromState, t.toState) ∧
      (t.ruleId = [] ∨ t.ruleId = rule) := by
  obtain ⟨_, -, h⟩ := Pipeline.bind_ok h
  split at h
  · cases h
  · rename_i rule source target hparts
    obtain ⟨_, hends, hrule⟩ := Pipeline.bind_ok h
    have hends := not_or.mp (refuseIf_ok hends)
    have hrule := refuseIf_ok hrule
    rw [not_not.mp hends.1, not_not.mp hends.2] at hparts
    refine ⟨rule, hparts, ?_⟩
    by_cases hempty : t.ruleId = []
    · exact .inl hempty
    · exact .inr (not_not.mp fun hne => hrule ⟨hempty, fun heq => hne heq.symm⟩)

section Checks

variable {stateIds sanctionIds pathIds : List Str}

theorem checkTransition_ok {seenEdgeKeys : List Str} {seenPairs : List (Str × Str)} {t : LegalTransition}
    {u : Unit} (h : checkTransition stateIds sanctionIds pathIds seenEdgeKeys seenPairs t = .ok u) :
    EdgeValid stateIds sanctionIds pathIds t ∧ t.edgeKey ∉ seenEdgeKeys ∧
      (t.fromState, t.triggeredBy) ∉ seenPairs := by
  obtain ⟨_, hkey, h⟩ := Pipeline.bind_ok h
  obtain ⟨_, hnew, h⟩ := Pipeline.bind_ok h
  obtain ⟨_, hsource, h⟩ := Pipeline.bind_ok h
  obtain ⟨_, htarget, h⟩ := Pipeline.bind_ok h
  obtain ⟨_, htriggered, h⟩ := Pipeline.bind_ok h
  obtain ⟨sanctionId, heffective, h⟩ := Pipeline.bind_ok h
  obtain ⟨_, hsanction, h⟩ := Pipeline.bind_ok h
  obtain ⟨_, hrestorative, h⟩ := Pipeline.bind_ok h
  have hsanction := refuseIf_ok hsanction
  have hrestorative := refuseIf_ok hrestorative
  push Not at hsanction hrestorative
  refine ⟨?_, refuseIf_ok hnew, refuseIf_ok h⟩
  exact
    { parts := checkEdgeKey_ok hkey
      source := not_not.mp (refuseIf_ok hsource)
      target := not_not.mp (refuseIf_ok htarget)
      triggered := refuseIf_ok htriggered
      sanction := ⟨sanctionId, heffective, hsanction⟩
      restorative := hrestorative }

theorem checkTransitions_ok {transitions : List LegalTransition} {seenEdgeKeys : List Str}
    {seenPairs : List (Str × Str)} {u : Unit}
    (h : checkTransitions stateIds sanctionIds pathIds seenEdgeKeys seenPairs transitions = .ok u) :
    (∀ t ∈ transitions, EdgeValid stateIds sanctionIds pathIds t ∧ t.edgeKey ∉ seenEdgeKeys ∧
      (t.fromState, t.triggeredBy) ∉ seenPairs) ∧
    (transitions.map LegalTransition.edgeKey).Nodup ∧
    (transitions.map fun t => (t.fromState, t.triggeredBy)).Nodup := by
  induction transitions generalizing seenEdgeKeys seenPairs with
  | nil => exact ⟨nofun, List.nodup_nil, List.nodup_nil⟩
  | cons t rest ih =>
    obtain ⟨_, hfirst, h⟩ := Pipeline.bind_ok h
    obtain ⟨hrest, hkeys, hpairs⟩ := ih h
    refine ⟨fun t' ht' => ?_, ?_, ?_⟩
    · obtain rfl | ht' := List.mem_cons.mp ht'
      · exact checkTransition_ok hfirst
      · obtain ⟨hvalid, hkey, hpair⟩ := hrest t' ht'
        exact ⟨hvalid, fun hmem => hkey (List.mem_cons_of_mem _ hmem),
          fun hmem => hpair (List.mem_cons_of_mem _ hmem)⟩
    · rw [List.map_cons, List.nodup_cons]
      refine ⟨fun hmem => ?_, hkeys⟩
      obtain ⟨t', ht', heq⟩ := List.mem_map.mp hmem
      exact (hrest t' ht').2.1 (heq ▸ List.mem_cons_self)
    · rw [List.map_cons, List.nodup_cons]
      refine ⟨fun hmem => ?_, hpairs⟩
      obtain ⟨t', ht', heq⟩ := List.mem_map.mp hmem
      exact (hrest t' ht').2.2 (heq ▸ List.mem_cons_self)

end Checks

/-- A manifest that passes `_validate_topology`. -/
structure TopologyValid (g : GovernanceGraph) : Prop where
  edges : ∀ t ∈ g.transitions, EdgeValid (g.states.map LegalState.stateId)
    (g.sanctions.map Sanction.sanctionId) (g.restorativePaths.map RestorativePath.pathId) t
  edgeKeys : (g.transitions.map LegalTransition.edgeKey).Nodup
  dispatch : (g.transitions.map fun t => (t.fromState, t.triggeredBy)).Nodup

theorem topologyValid {g : GovernanceGraph} {u : Unit} (h : validateTopology g = .ok u) : TopologyValid g := by
  obtain ⟨_, -, h⟩ := Pipeline.bind_ok h
  obtain ⟨_, -, h⟩ := Pipeline.bind_ok h
  obtain ⟨_, htransitions, -⟩ := Pipeline.bind_ok h
  obtain ⟨hedges, hkeys, hpairs⟩ := checkTransitions_ok htransitions
  exact ⟨fun t ht => (hedges t ht).1, hkeys, hpairs⟩

namespace TopologyValid

variable {g : GovernanceGraph} (h : TopologyValid g)

include h in
theorem findTransition_ok (fromState triggeredBy : Str) :
    ∃ found, g.findTransition fromState triggeredBy = .ok found ∧
      ∀ t ∈ found, t ∈ g.transitions ∧ t.fromState = fromState ∧ t.triggeredBy = triggeredBy := by
  have hnodup := h.dispatch.sublist ((List.filter_sublist (l := g.transitions)
    (p := fun t => decide (t.fromState = fromState ∧ t.triggeredBy = triggeredBy))).map
      fun t => (t.fromState, t.triggeredBy))
  have hmem : ∀ t ∈ g.transitions.filter (fun t => decide (t.fromState = fromState ∧
      t.triggeredBy = triggeredBy)), t ∈ g.transitions ∧ t.fromState = fromState ∧
        t.triggeredBy = triggeredBy := fun t ht => by simpa using List.mem_filter.mp ht
  unfold GovernanceGraph.findTransition
  generalize g.transitions.filter _ = found at hnodup hmem ⊢
  match found with
  | [] => exact ⟨none, rfl, nofun⟩
  | [t] => exact ⟨some t, rfl, fun t' ht' => hmem t' (List.mem_singleton.mpr (Option.mem_some.mp ht').symm)⟩
  | t :: t' :: rest =>
    obtain ⟨-, hfrom, htrigger⟩ := hmem t List.mem_cons_self
    obtain ⟨-, hfrom', htrigger'⟩ := hmem t' (List.mem_cons_of_mem _ List.mem_cons_self)
    rw [List.map_cons, List.map_cons, List.nodup_cons, hfrom, htrigger, hfrom', htrigger'] at hnodup
    exact absurd List.mem_cons_self hnodup.1

end TopologyValid

theorem lookupSanction_ok {g : GovernanceGraph} {id : Str} (h : id ∈ g.sanctions.map Sanction.sanctionId) :
    ∃ s ∈ g.sanctions, g.lookupSanction id = .ok s := by
  obtain ⟨s, hs, hid⟩ := List.mem_map.mp h
  have hsome : (g.sanctions.find? fun s => s.sanctionId = id).isSome = true :=
    List.find?_isSome.mpr ⟨s, hs, decide_eq_true hid⟩
  obtain ⟨found, hfound⟩ := Option.isSome_iff_exists.mp hsome
  refine ⟨found, List.mem_of_find?_eq_some hfound, ?_⟩
  unfold GovernanceGraph.lookupSanction
  rw [hfound]

theorem lookupRestorativePath_ok {g : GovernanceGraph} {id : Str}
    (h : id ∈ g.restorativePaths.map RestorativePath.pathId) :
    ∃ p ∈ g.restorativePaths, g.lookupRestorativePath id = .ok p := by
  obtain ⟨p, hp, hid⟩ := List.mem_map.mp h
  have hsome : (g.restorativePaths.find? fun p => p.pathId = id).isSome = true :=
    List.find?_isSome.mpr ⟨p, hp, decide_eq_true hid⟩
  obtain ⟨found, hfound⟩ := Option.isSome_iff_exists.mp hsome
  refine ⟨found, List.mem_of_find?_eq_some hfound, ?_⟩
  unfold GovernanceGraph.lookupRestorativePath
  rw [hfound]

end TexGovernance.Institutional

/-!
## The governance controller

`GovernanceController.enforce` (`institutional/controller.py`): the states of the
actors and the cooldowns of their edges, and the decision that each call returns.
-/

namespace TexGovernance.Institutional
open PyStr PyRepr PyDict
open PyJson (intText)
open Engine (Uuid)

inductive ControllerOutcome where
  | allow
  | sanction
  | remediate
  | blocked
  deriving DecidableEq

structure ControllerDecision where
  decisionId : Str
  decision : ControllerOutcome
  edgeKey : Str := []
  ruleId : Str := []
  fromState : Str
  toState : Str := []
  triggeredBy : Str
  sanctionId : Option Str := none
  restorativePathId : Option Str := none
  caseId : Option Str
  actorEntityId : Str
  effectiveRound : ℤ
  cooldownUntilRound : Option ℤ := none
  rationale : Str
  manifestSemanticSha256 : Str

def ControllerDecision.texts (d : ControllerDecision) : List Str :=
  [d.decisionId, d.edgeKey, d.ruleId, d.fromState, d.toState, d.triggeredBy, d.actorEntityId,
    d.rationale, d.manifestSemanticSha256] ++
    d.sanctionId.toList ++ d.restorativePathId.toList ++ d.caseId.toList

def ControllerDecision.validated (d : ControllerDecision) : Except PyErr ControllerDecision :=
  if ∀ s ∈ d.texts, Plain s then .ok d else .error .valueError

/-- The arguments of `enforce`, and the random id that it draws. -/
structure EnforceCall where
  proposedEventKind : Str
  actorEntityId : Str
  currentRound : ℤ
  caseId : Option Str
  uuid4 : Uuid

def EnforceCall.decisionId (call : EnforceCall) : Str :=
  txt "dec_" ++ (call.uuid4.text.filter fun c => c ≠ cp '-').take 12

structure GovernanceController where
  cooldowns : Dict (Str × Str) ℤ
  actorStates : Dict Str Str

namespace GovernanceController

def fresh : GovernanceController := ⟨Dict.empty, Dict.empty⟩

variable (c : GovernanceController)

def actorState (actor : Str) : Str := (c.actorStates.get? actor).getD (txt "active")

def cooldownUntil (actor edgeKey : Str) (currentRound : ℤ) : Option ℤ :=
  (c.cooldowns.get? (actor, edgeKey)).filter fun until_ => currentRound < until_

def inCooldown (actor edgeKey : Str) (currentRound : ℤ) : Bool :=
  (c.cooldownUntil actor edgeKey currentRound).isSome

end GovernanceController

def cooldownFor (t : LegalTransition) : ℤ :=
  match t.timing with
  | none => 0
  | some timing => max 0 ((timing.get? (txt "cooldown_rounds")).getD 0)

section Enforce

variable (repr : Str → Str) (g : GovernanceGraph)

def outcomeOf (t : LegalTransition) (sanctionId : Option Str) : ControllerOutcome × Str :=
  let traversed := txt "traversed " ++ repr t.edgeKey
  match t.restorativePathId with
  | some pathId =>
    (.remediate, traversed ++ txt ": restorative_path=" ++ repr pathId ++
      match g.lookupRestorativePath pathId with
      | .ok path => txt " (kind=" ++ path.restorationKind ++ txt ")"
      | .error _ => txt " (lookup failed)")
  | none =>
    match sanctionId with
    | some sanctionId =>
      (.sanction, traversed ++ txt ": sanction=" ++ repr sanctionId ++
        match g.lookupSanction sanctionId with
        | .ok sanction => txt " (action=" ++ sanction.enforcementAction ++ txt ")"
        | .error _ => txt " (lookup failed)")
    | none => (.allow, traversed ++ txt ": legal restorative/expiry")

def unmatched (fromState rationale : Str) (call : EnforceCall) : ControllerDecision where
  decisionId := call.decisionId
  decision := .blocked
  fromState
  triggeredBy := call.proposedEventKind
  caseId := call.caseId
  actorEntityId := call.actorEntityId
  effectiveRound := call.currentRound
  rationale
  manifestSemanticSha256 := g.manifestSemanticSha256

def matched (t : LegalTransition) (sanctionId : Option Str) (outcome : ControllerOutcome)
    (fromState : Str) (cooldownUntilRound : Option ℤ) (rationale : Str) (call : EnforceCall) :
    ControllerDecision where
  decisionId := call.decisionId
  decision := outcome
  edgeKey := t.edgeKey
  ruleId := t.ruleId
  fromState
  toState := t.toState
  triggeredBy := call.proposedEventKind
  sanctionId
  restorativePathId := t.restorativePathId
  caseId := call.caseId
  actorEntityId := call.actorEntityId
  effectiveRound := call.currentRound
  cooldownUntilRound
  rationale
  manifestSemanticSha256 := g.manifestSemanticSha256

def ambiguousRationale (fromState triggeredBy : Str) : LookupError → Str
  | .ambiguous edgeKeys =>
    txt "manifest topology ambiguous: ambiguous transitions for from_state=" ++ repr fromState ++
      txt " triggered_by=" ++ repr triggeredBy ++ txt ": " ++ namesRepr repr edgeKeys
  | .keyError => txt "manifest topology ambiguous: "

def noEdgeRationale (fromState triggeredBy : Str) : Str :=
  txt "no manifest-declared edge from state=" ++ repr fromState ++ txt " for triggered_by=" ++
    repr triggeredBy

def coolingRationale (t : LegalTransition) (untilText : Str) (call : EnforceCall) : Str :=
  txt "edge " ++ repr t.edgeKey ++ txt " on cooldown until round " ++ untilText ++ txt " for actor " ++
    repr call.actorEntityId

def blockedDecision (t : LegalTransition) (fromState : Str) (until_ : ℤ) (call : EnforceCall) :
    Except PyErr ControllerDecision := do
  let sanctionId ← t.effectiveSanctionId.mapError fun _ => PyErr.valueError
  let untilText ← intText until_
  (matched g t sanctionId .blocked fromState (some until_) (coolingRationale repr t untilText call)
    call).validated

def GovernanceController.traverse (c : GovernanceController) (t : LegalTransition) (call : EnforceCall) :
    GovernanceController where
  cooldowns :=
    if 0 < cooldownFor t then
      c.cooldowns.set (call.actorEntityId, t.edgeKey) (call.currentRound + cooldownFor t)
    else c.cooldowns
  actorStates := c.actorStates.set call.actorEntityId t.toState

def traversal (t : LegalTransition) (sanctionId : Option Str) (fromState : Str) (call : EnforceCall) :
    ControllerDecision :=
  matched g t sanctionId (outcomeOf repr g t sanctionId).1 fromState
    (if 0 < cooldownFor t then some (call.currentRound + cooldownFor t) else none)
    (outcomeOf repr g t sanctionId).2 call

/-- What a call returns or raises, and the controller it leaves. -/
def enforce (c : GovernanceController) (call : EnforceCall) :
    Except PyErr ControllerDecision × GovernanceController :=
  if call.actorEntityId = [] ∨ call.proposedEventKind = [] then (.error .valueError, c)
  else
    let fromState := c.actorState call.actorEntityId
    match g.findTransition fromState call.proposedEventKind with
    | .error e =>
      ((unmatched g fromState (ambiguousRationale repr fromState call.proposedEventKind e) call).validated, c)
    | .ok none =>
      ((unmatched g fromState (noEdgeRationale repr fromState call.proposedEventKind) call).validated, c)
    | .ok (some t) =>
      match c.cooldownUntil call.actorEntityId t.edgeKey call.currentRound with
      | some until_ => (blockedDecision repr g t fromState until_ call, c)
      | none =>
        match t.effectiveSanctionId with
        | .error _ => (.error .valueError, c)
        | .ok sanctionId => ((traversal repr g t sanctionId fromState call).validated, c.traverse t call)

end Enforce

end TexGovernance.Institutional
