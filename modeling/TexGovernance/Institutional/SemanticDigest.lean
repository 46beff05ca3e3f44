import TexGovernance.Institutional.Controller
import TexGovernance.Lib.JsonCanon
import TexGovernance.Lib.PyFloat
import TexGovernance.Lib.Sha2

/-!
# The semantic digest of a manifest

`_semantic_digest_input` and `_coerce_jsonable` (`institutional/governance_graph.py`),
`canonical_json` and `sha256_hex` (`events/_canonical.py`), the validators of
`institutional/sanctions.py`, and what `GovernanceGraph.from_dict` does once the
parts of a manifest are parsed.
-/

namespace TexGovernance.Institutional
open PyStr PyBytes PyCodec PyRepr PyDict PyFloat PyValue JsonLoads JsonText JsonCanon
open Sha256 (sha256)

inductive SanctionError where
  | emptyId
  | unknownAction (action : Str)
  | negativeCost
  | fineTier
  | fineRate
  | suspensionRounds
  deriving DecidableEq

def SanctionError.message (repr : Str → Str) : SanctionError → Str
  | .emptyId => txt "Sanction.sanction_id must be non-empty"
  | .unknownAction action =>
    txt "Sanction.enforcement_action " ++ repr action ++ txt " not in " ++
      txt "['block', 'fine', 'quarantine', 'reduce_trust', 'require_human_approval', " ++
      txt "'revoke_capability', 'suspension', 'warning']"
  | .negativeCost => txt "Sanction costs must be non-negative"
  | .fineTier => txt "fine sanction requires tier in \x7b1,2,3\x7d"
  | .fineRate => txt "fine sanction requires 0<=fine_rate<=1"
  | .suspensionRounds => txt "suspension sanction requires positive duration_rounds"

/-- `_VALID_ENFORCEMENT_ACTIONS`. -/
def enforcementActions : List Str :=
  [txt "warning", txt "fine", txt "suspension", txt "revoke_capability", txt "reduce_trust",
    txt "require_human_approval", txt "block", txt "quarantine"]

def validateSanction (s : Sanction) : Except SanctionError Unit :=
  if s.sanctionId = [] then .error .emptyId
  else if s.enforcementAction ∉ enforcementActions then .error (.unknownAction s.enforcementAction)
  else if s.costToActor < 0 ∨ s.costToSystem < 0 then .error .negativeCost
  else if s.enforcementAction = txt "fine" ∧ ¬ ∃ tier ∈ s.tier, tier ∈ [1, 2, 3] then .error .fineTier
  else if s.enforcementAction = txt "fine" ∧ ¬ ∃ rate ∈ s.fineRate, 0 ≤ rate ∧ rate ≤ 1 then
    .error .fineRate
  else if s.enforcementAction = txt "suspension" ∧ ¬ ∃ rounds ∈ s.durationRounds, 0 < rounds then
    .error .suspensionRounds
  else .ok ()

inductive PathError where
  | emptyId
  | unknownKind (kind : Str)
  | emptyTarget
  deriving DecidableEq

def PathError.message (repr : Str → Str) : PathError → Str
  | .emptyId => txt "RestorativePath.path_id must be non-empty"
  | .unknownKind kind =>
    txt "restoration_kind " ++ repr kind ++ txt " not in " ++
      txt "['clean_restoration', 'credit_relief', 'expiry']"
  | .emptyTarget => txt "RestorativePath.target_legal_state_id must be non-empty"

/-- `_VALID_RESTORATION_KINDS`. -/
def restorationKinds : List Str := [txt "expiry", txt "credit_relief", txt "clean_restoration"]

def validateRestorativePath (p : RestorativePath) : Except PathError Unit :=
  if p.pathId = [] then .error .emptyId
  else if p.restorationKind ∉ restorationKinds then .error (.unknownKind p.restorationKind)
  else if p.targetLegalStateId = [] then .error .emptyTarget
  else .ok ()

/-- `canonical_json`, of `events/_canonical.py`. -/
def canonicalJson (v : JsonValue) : Except Raised Str :=
  if noFloats v then PyValue.dumps keepChars v else .error .typeError

theorem canonicalJson_ok {v : JsonValue} {text : Str} (h : canonicalJson v = .ok text) :
    noFloats v = true ∧ shortInts v = true ∧ JsonText.dumps keepChars v = text := by
  unfold canonicalJson PyValue.dumps at h
  split at h
  · rename_i hfloats
    split at h
    · rename_i hshort
      exact ⟨hfloats, hshort, Except.ok.inj h⟩
    · cases h
  · cases h

def sha256Hex (value : Str) : Except Raised Str := do
  let bytes ← raising (utf8Encode value)
  return hex (sha256 bytes).bytes

section Digest

-- the float product with 1000, nothing where it overflows
variable (thousandfold : ℚ → Option ℚ)

/-- `int(round(x * 1000))`. -/
def milli (x : ℚ) : Except Raised ℤ :=
  match thousandfold x with
  | some y => .ok (roundHalfEven y)
  | none => .error (.py .overflowError)

def milliOrZero (x : Option ℚ) : Except Raised ℤ :=
  match x with
  | some x => milli thousandfold x
  | none => .ok 0

mutual

/-- `_coerce_jsonable`. -/
def coerceJsonable : ManifestValue → Except Raised JsonValue
  | .null => .ok .null
  | .bool b => .ok (.bool b)
  | .str s => .ok (.str s)
  | .int z => .ok (.int z)
  | .float q => (milli thousandfold q).map .int
  | .dict items => (coerceMembers items).map fun members => .obj (byName members)
  | .list items => (coerceItems items).map .arr

def coerceItems : List ManifestValue → Except Raised (List JsonValue)
  | [] => .ok []
  | v :: rest => do
    let first ← coerceJsonable v
    let others ← coerceItems rest
    return first :: others

def coerceMembers : List (Str × ManifestValue) → Except Raised Members
  | [] => .ok []
  | (k, v) :: rest => do
    let first ← coerceJsonable v
    let others ← coerceMembers rest
    return (k, first) :: others

end

/-- `mapping or {}`. -/
def itemsOf {ν : Type} (mapping : Option (Dict Str ν)) : List (Str × ν) :=
  match mapping with
  | some d => d.items
  | none => []

def coerceMapping (mapping : Option (Dict Str ManifestValue)) : Except Raised JsonValue :=
  coerceJsonable thousandfold (.dict (itemsOf mapping))

def stateEntry (s : LegalState) : JsonValue :=
  .obj [(txt "state_id", .str s.stateId), (txt "description", .str s.description),
    (txt "predicate_ltl", .str s.predicateLtl)]

def timingEntry (timing : Option (Dict Str ℤ)) : JsonValue :=
  .obj ((itemsOf timing).map fun m => (m.1, .int m.2))

def transitionEntry (t : LegalTransition) : Except Raised JsonValue := do
  let sanctionId ← t.effectiveSanctionId.mapError fun _ => .py .valueError
  let metadata ← coerceMapping thousandfold t.metadata
  return .obj [(txt "edge_key", .str t.edgeKey), (txt "rule_id", .str t.ruleId),
    (txt "from_state", .str t.fromState), (txt "to_state", .str t.toState),
    (txt "triggered_by", .str t.triggeredBy), (txt "sanction_id", .str (sanctionId.getD [])),
    (txt "restorative_path_id", .str (t.restorativePathId.getD [])),
    (txt "timing", timingEntry t.timing), (txt "metadata", metadata)]

def sanctionEntry (s : Sanction) : Except Raised JsonValue := do
  let costToActor ← milli thousandfold s.costToActor
  let costToSystem ← milli thousandfold s.costToSystem
  let fineRate ← milliOrZero thousandfold s.fineRate
  let fineFloor ← milliOrZero thousandfold s.fineFloor
  return .obj [(txt "sanction_id", .str s.sanctionId), (txt "description", .str s.description),
    (txt "cost_to_actor_x1000", .int costToActor), (txt "cost_to_system_x1000", .int costToSystem),
    (txt "enforcement_action", .str s.enforcementAction), (txt "tier", .int (s.tier.getD 0)),
    (txt "fine_rate_x1000", .int fineRate), (txt "fine_floor_x1000", .int fineFloor),
    (txt "duration_rounds", .int (s.durationRounds.getD 0))]

def pathEntry (p : RestorativePath) : Except Raised JsonValue := do
  let condition ← coerceMapping thousandfold p.condition
  return .obj [(txt "path_id", .str p.pathId), (txt "description", .str p.description),
    (txt "restorative_event_kinds", .arr (p.restorativeEventKinds.map .str)),
    (txt "target_legal_state_id", .str p.targetLegalStateId),
    (txt "restoration_kind", .str p.restorationKind), (txt "condition", condition)]

/-- `_semantic_digest_input`. -/
def semanticDigestInput (g : GovernanceGraph) : Except Raised JsonValue := do
  let transitions ← g.transitions.mapM (transitionEntry thousandfold)
  let sanctions ← g.sanctions.mapM (sanctionEntry thousandfold)
  let restorativePaths ← g.restorativePaths.mapM (pathEntry thousandfold)
  let policySurface ← coerceMapping thousandfold g.policySurface
  let policyProgram ← coerceMapping thousandfold g.policyProgram
  let contracts ← coerceMapping thousandfold g.contracts
  return .obj [(txt "schema_version", .str g.schemaVersion), (txt "graph_id", .str g.graphId),
    (txt "version", .str g.version),
    (txt "interpreter", .obj [(txt "name", .str g.interpreterName),
      (txt "version", .str g.interpreterVersion)]),
    (txt "states", .arr (g.states.map stateEntry)), (txt "transitions", .arr transitions),
    (txt "sanctions", .arr sanctions), (txt "restorative_paths", .arr restorativePaths),
    (txt "policy_surface", policySurface), (txt "policy_program", policyProgram),
    (txt "contracts", contracts)]

def canonicalContent (g : GovernanceGraph) : Except Raised Str := do
  let input ← semanticDigestInput thousandfold g
  canonicalJson input

def semanticDigest (g : GovernanceGraph) : Except Raised Str := do
  let content ← canonicalContent thousandfold g
  sha256Hex content

inductive LoadError where
  | sanction (sanctionId : Str) (e : SanctionError)
  | restorativePath (pathId : Str) (e : PathError)
  | topology (e : TopologyError)
  | digest (e : Raised)
  deriving DecidableEq

def checkSanction (s : Sanction) : Except LoadError Unit :=
  (validateSanction s).mapError (.sanction s.sanctionId)

def checkPath (p : RestorativePath) : Except LoadError Unit :=
  (validateRestorativePath p).mapError (.restorativePath p.pathId)

/-- `from_dict`, of the parts of a manifest as they were parsed. -/
def GovernanceGraph.load (g : GovernanceGraph) : Except LoadError GovernanceGraph := do
  let _ ← g.sanctions.mapM checkSanction
  let _ ← g.restorativePaths.mapM checkPath
  (validateTopology g).mapError .topology
  let digest ← (semanticDigest thousandfold g).mapError .digest
  return { g with manifestSemanticSha256 := digest }

end Digest

theorem sanctionId_ne_nil {s : Sanction} (h : validateSanction s = .ok ()) : s.sanctionId ≠ [] := by
  intro hnil
  rw [validateSanction, if_pos hnil] at h
  cases h

theorem pathId_ne_nil {p : RestorativePath} (h : validateRestorativePath p = .ok ()) : p.pathId ≠ [] := by
  intro hnil
  rw [validateRestorativePath, if_pos hnil] at h
  cases h

theorem sha256Hex_ok {value digest : Str} (h : sha256Hex value = .ok digest) :
    ∃ bytes, utf8Encode value = .ok bytes ∧ digest = hex (sha256 bytes).bytes := by
  obtain ⟨bytes, hbytes, h⟩ := Pipeline.bind_ok h
  refine ⟨bytes, ?_, (Except.ok.inj h).symm⟩
  cases hencode : utf8Encode value with
  | ok b =>
    rw [hencode] at hbytes
    rw [Except.ok.inj hbytes]
  | error e =>
    rw [hencode] at hbytes
    cases hbytes

theorem mapError_ok {ε ε' α : Type} {f : ε → ε'} {x : Except ε α} {a : α} (h : x.mapError f = .ok a) :
    x = .ok a := by
  cases x with
  | ok b => rw [Except.ok.inj h]
  | error e => cases h

/-- A manifest that `from_dict` returned. -/
structure Loaded (thousandfold : ℚ → Option ℚ) (g : GovernanceGraph) : Prop where
  sanctionIds : ∀ s ∈ g.sanctions, s.sanctionId ≠ []
  pathIds : ∀ p ∈ g.restorativePaths, p.pathId ≠ []
  topology : TopologyValid g
  digest : semanticDigest thousandfold g = .ok g.manifestSemanticSha256

theorem loaded {thousandfold : ℚ → Option ℚ} {source g : GovernanceGraph}
    (h : source.load thousandfold = .ok g) : Loaded thousandfold g := by
  obtain ⟨_, hsanctions, h⟩ := Pipeline.bind_ok h
  obtain ⟨_, hpaths, h⟩ := Pipeline.bind_ok h
  obtain ⟨_, htopology, h⟩ := Pipeline.bind_ok h
  obtain ⟨digest, hdigest, h⟩ := Pipeline.bind_ok h
  obtain rfl := Except.ok.inj h
  obtain ⟨hedges, hkeys, hdispatch⟩ := topologyValid (mapError_ok htopology)
  refine ⟨fun s hs => ?_, fun p hp => ?_, ⟨hedges, hkeys, hdispatch⟩, mapError_ok hdigest⟩
  · exact sanctionId_ne_nil (mapError_ok (ok_of_mapM_ok hsanctions hs).choose_spec)
  · exact pathId_ne_nil (mapError_ok (ok_of_mapM_ok hpaths hp).choose_spec)

def LegalTransition.Named (t : LegalTransition) : Prop :=
  t.effectiveSanctionId ≠ .ok (some []) ∧ t.restorativePathId ≠ some []

theorem Loaded.named {thousandfold : ℚ → Option ℚ} {g : GovernanceGraph} (h : Loaded thousandfold g)
    {t : LegalTransition} (ht : t ∈ g.transitions) : t.Named := by
  have hedge := h.topology.edges t ht
  obtain ⟨sanctionId, heffective, hdeclared⟩ := hedge.sanction
  refine ⟨fun hnil => ?_, fun hnil => ?_⟩
  · obtain rfl := Except.ok.inj (heffective.symm.trans hnil)
    obtain ⟨s, hs, hid⟩ := List.mem_map.mp (hdeclared [] rfl)
    exact h.sanctionIds s hs hid
  · obtain ⟨p, hp, hid⟩ := List.mem_map.mp (hedge.restorative [] hnil)
    exact h.pathIds p hp hid

end TexGovernance.Institutional
