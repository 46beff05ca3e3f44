import Mathlib.Order.Lattice
import TexGovernance.Lib.GraphSearch
import TexGovernance.Lib.PyJson
import TexGovernance.Lib.PyRepr
import TexGovernance.Lib.Sha2

/-!
# The provenance graph

The labels of `ifc/lattice.py` and the graph of `ifc/provenance.py`. A graph
keeps every edge twice, in the list of its source and in the list of its
target. Metadata and times are left out: no query reads them. A generated id
takes the text of its UUID from the call.
-/

namespace TexGovernance.Ifc
open PyStr PyDict PyJson PyCodec PyBytes Sha256 GraphSearch

inductive IntegrityLevel where
  | toolDesc
  | toolUntrusted
  | toolTrusted
  | userInput
  | sysInstr
  deriving DecidableEq, Repr

namespace IntegrityLevel

def toNat : IntegrityLevel → ℕ
  | .toolDesc => 0
  | .toolUntrusted => 1
  | .toolTrusted => 2
  | .userInput => 3
  | .sysInstr => 4

theorem toNat_injective : Function.Injective toNat := by
  intro a b h
  cases a <;> cases b <;> first | rfl | cases h

instance : LinearOrder IntegrityLevel := LinearOrder.lift' toNat toNat_injective

def join : List IntegrityLevel → IntegrityLevel
  | [] => .sysInstr
  | level :: rest => rest.foldl (fun result l => if l < result then l else result) level

def isUntrusted (l : IntegrityLevel) : Bool := l ≤ .toolUntrusted

end IntegrityLevel

inductive ConfidentialityLevel where
  | public_
  | internal
  | confidential
  | restricted
  deriving DecidableEq, Repr

namespace ConfidentialityLevel

def toNat : ConfidentialityLevel → ℕ
  | .public_ => 0
  | .internal => 1
  | .confidential => 2
  | .restricted => 3

theorem toNat_injective : Function.Injective toNat := by
  intro a b h
  cases a <;> cases b <;> first | rfl | cases h

instance : LinearOrder ConfidentialityLevel := LinearOrder.lift' toNat toNat_injective

def join : List ConfidentialityLevel → ConfidentialityLevel
  | [] => .public_
  | level :: rest => rest.foldl (fun result l => if result < l then l else result) level

def label : ConfidentialityLevel → Str
  | .public_ => txt "PUBLIC"
  | .internal => txt "INTERNAL"
  | .confidential => txt "CONFIDENTIAL"
  | .restricted => txt "RESTRICTED"

end ConfidentialityLevel

inductive CapacityType where
  | bool
  | enum
  | number
  | timestamp
  | shortString
  | text
  deriving DecidableEq, Repr

namespace CapacityType

def toNat : CapacityType → ℕ
  | .bool => 0
  | .enum => 1
  | .number => 2
  | .timestamp => 3
  | .shortString => 4
  | .text => 5

def declassifies (c : CapacityType) : Bool := c.toNat ≤ CapacityType.enum.toNat

end CapacityType

structure IfcLabel where
  integrity : IntegrityLevel
  confidentiality : ConfidentialityLevel
  capacity : CapacityType
  deriving DecidableEq, Repr

def IfcLabel.mayDeclassify (label : IfcLabel) : Bool := label.capacity.declassifies

inductive NodeKind where
  | call
  | data
  | dataField
  | deniedAction
  deriving DecidableEq, Repr

namespace NodeKind

def value : NodeKind → Str
  | .call => txt "call"
  | .data => txt "data"
  | .dataField => txt "data_field"
  | .deniedAction => txt "denied_action"

def isData : NodeKind → Bool
  | .data => true
  | .dataField => true
  | _ => false

end NodeKind

inductive EdgeKind where
  | directOutput
  | inputTo
  | fieldOf
  | counterfactual
  deriving DecidableEq, Repr

def EdgeKind.value : EdgeKind → Str
  | .directOutput => txt "direct_output"
  | .inputTo => txt "input_to"
  | .fieldOf => txt "field_of"
  | .counterfactual => txt "counterfactual"

structure Node where
  kind : NodeKind
  name : Str
  label : Option IfcLabel
  deriving DecidableEq

structure Edge where
  source : Str
  target : Str
  kind : EdgeKind
  deriving DecidableEq

inductive IfcError where
  | keyError (message : Str)
  | valueError (message : Str)
  | python (e : PyErr)
  deriving DecidableEq

structure ProvenanceGraph where
  nodes : Dict Str Node
  outEdges : Dict Str (List Edge)
  inEdges : Dict Str (List Edge)
  recentDenials : List Str

namespace ProvenanceGraph

def empty : ProvenanceGraph := ⟨Dict.empty, Dict.empty, Dict.empty, []⟩

def outs (g : ProvenanceGraph) (id : Str) : List Edge := (g.outEdges.get? id).getD []

def ins (g : ProvenanceGraph) (id : Str) : List Edge := (g.inEdges.get? id).getD []

def hasNode (g : ProvenanceGraph) (id : Str) : Bool := (g.nodes.get? id).isSome

def putNode (g : ProvenanceGraph) (id : Str) (node : Node) : ProvenanceGraph :=
  { g with nodes := g.nodes.set id node, outEdges := g.outEdges.set id [],
           inEdges := g.inEdges.set id [] }

def addEdge (g : ProvenanceGraph) (source target : Str) (kind : EdgeKind) :
    Except IfcError ProvenanceGraph :=
  if g.hasNode source = false then .error (.keyError (txt "source node not found: " ++ source))
  else if g.hasNode target = false then
    .error (.keyError (txt "target node not found: " ++ target))
  else if (g.outs source).any fun e => e.target = target && e.kind = kind then .ok g
  else
    .ok { g with
      outEdges := g.outEdges.set source (g.outs source ++ [⟨source, target, kind⟩])
      inEdges := g.inEdges.set target (g.ins target ++ [⟨source, target, kind⟩]) }

/-- `node_id or f"<kind>:{uuid4()}"`. -/
def chooseId (nodeId : Option Str) (pre uuid : Str) : Str :=
  match nodeId with
  | some id => if id = [] then pre ++ uuid else id
  | none => pre ++ uuid

def addCall (g : ProvenanceGraph) (name : Str) (nodeId : Option Str) (uuid : Str)
    (autoLinkCounterfactual : Bool) : Except IfcError ProvenanceGraph :=
  let id := chooseId nodeId (txt "call:") uuid
  let g := g.putNode id ⟨.call, name, none⟩
  if autoLinkCounterfactual ∧ g.recentDenials ≠ [] then do
    let g ← g.recentDenials.foldlM (fun g denial => g.addEdge denial id .counterfactual) g
    return { g with recentDenials := [] }
  else .ok g

def addData (g : ProvenanceGraph) (name : Str) (label : IfcLabel) (nodeId : Option Str)
    (uuid : Str) : ProvenanceGraph :=
  g.putNode (chooseId nodeId (txt "data:") uuid) ⟨.data, name, some label⟩

def addDataField (g : ProvenanceGraph) (parentDataId fieldName : Str) (label : IfcLabel)
    (nodeId : Option Str) (uuid : Str) : Except IfcError ProvenanceGraph :=
  match g.nodes.get? parentDataId with
  | none => .error (.keyError (txt "parent data node not found: " ++ parentDataId))
  | some parent =>
    if parent.kind ≠ .data then .error (.valueError (txt "parent must be a DATA node"))
    else
      let id := chooseId nodeId (txt "field:") uuid
      (g.putNode id ⟨.dataField, fieldName, some label⟩).addEdge id parentDataId .fieldOf

def addDeniedAction (g : ProvenanceGraph) (name uuid : Str) : ProvenanceGraph :=
  let id := txt "denied:" ++ uuid
  let g := g.putNode id ⟨.deniedAction, name, none⟩
  { g with recentDenials := g.recentDenials ++ [id] }

def nodeCount (g : ProvenanceGraph) : ℕ := g.nodes.items.length

def edgeCount (g : ProvenanceGraph) : ℕ := (g.outEdges.items.map fun e => e.2.length).sum

def hasEdge (g : ProvenanceGraph) (source target : Str) (kind : EdgeKind) : Bool :=
  g.hasNode source && g.hasNode target &&
    (g.outs source).any fun e => e.target = target && e.kind = kind

def isFlow (e : Edge) : Bool := e.kind ≠ .counterfactual

def pairLe (a b : Str × EdgeKind) : Bool :=
  if a.1 = b.1 then strLe a.2.value b.2.value else strLe a.1 b.1

def dataFlowInEdges (g : ProvenanceGraph) (id : Str) : List (Str × EdgeKind) :=
  if g.hasNode id then
    (((g.ins id).filter isFlow).map fun e => (e.source, e.kind)).insertionSort
      fun a b => pairLe a b = true
  else []

/-- What `_ancestors` pushes for a node, in order. -/
def flowParents (g : ProvenanceGraph) (id : Str) : List Str :=
  ((g.ins id).filter isFlow).map Edge.source

def searchFuel (g : ProvenanceGraph) : ℕ := (g.nodes.keys.map fun id => (g.flowParents id).length).sum + 2

def ancestors (g : ProvenanceGraph) (id : Str) : List Str :=
  if g.hasNode id then
    match closure g.flowParents g.searchFuel [id] [] with
    | some visited => sortedNames (visited.filter (· ≠ id))
    | none => []
  else []

def ancestorLabels (g : ProvenanceGraph) (id : Str) : List IfcLabel :=
  (g.ancestors id).filterMap fun a =>
    match g.nodes.get? a with
    | some node => if node.kind.isData then node.label else none
    | none => none

def minTrust (g : ProvenanceGraph) (id : Str) : IntegrityLevel :=
  .join ((g.ancestorLabels id).map IfcLabel.integrity)

def maxSensitivity (g : ProvenanceGraph) (id : Str) : ConfidentialityLevel :=
  .join ((g.ancestorLabels id).map IfcLabel.confidentiality)

/-- `encode("utf-8", "replace")`. -/
def encodeReplace (s : Str) : Bytes := s.flatMap fun c => (encodeCodePoint c).getD [byte 0x3f]

def ascii (s : String) : Bytes := s.toList.map fun c => byte c.toNat

def digit (n : ℕ) : Bytes := (Nat.toDigits 10 n).map fun c => byte c.toNat

def labelBytes (label : IfcLabel) : Bytes :=
  ascii "|" ++ digit label.integrity.toNat ++ ascii "," ++ digit label.confidentiality.toNat ++
    ascii "," ++ digit label.capacity.toNat

def nodeBytes (node : Node) : Bytes :=
  byte 0 :: ascii "node:" ++ encodeReplace node.kind.value ++ ascii "|" ++ encodeReplace node.name ++
    match node.label with
    | some label => labelBytes label
    | none => []

def recordLe (a b : Str × Str × Str) : Bool :=
  if a.1 = b.1 then if a.2.1 = b.2.1 then strLe a.2.2 b.2.2 else strLe a.2.1 b.2.1
  else strLe a.1 b.1

def edgeRecords (g : ProvenanceGraph) : List (Str × Str × Str) :=
  (g.outEdges.items.flatMap fun entry =>
    entry.2.map fun e => (entry.1, e.target, e.kind.value)).insertionSort
      fun a b => recordLe a b = true

def edgeBytes (r : Str × Str × Str) : Except PyErr Bytes := do
  let source ← utf8Encode r.1
  let target ← utf8Encode r.2.1
  let kind ← utf8Encode r.2.2
  return byte 0 :: ascii "edge:" ++ source ++ ascii "->" ++ target ++ ascii "/" ++ kind

/-- The bytes that are hashed. -/
def fingerprintInput (g : ProvenanceGraph) : Except PyErr Bytes := do
  let edges ← g.edgeRecords.mapM edgeBytes
  return ((sortedNames g.nodes.keys).filterMap g.nodes.get?).flatMap nodeBytes ++ edges.flatten

def fingerprint (g : ProvenanceGraph) : Except PyErr Str := do
  let input ← g.fingerprintInput
  return hex (sha256 input).bytes

end ProvenanceGraph

inductive GraphOp where
  | addCall (name : Str) (nodeId : Option Str) (uuid : Str) (autoLinkCounterfactual : Bool)
  | addData (name : Str) (label : IfcLabel) (nodeId : Option Str) (uuid : Str)
  | addDataField (parentDataId fieldName : Str) (label : IfcLabel) (nodeId : Option Str) (uuid : Str)
  | addDeniedAction (name : Str) (uuid : Str)
  | addEdge (source target : Str) (kind : EdgeKind)

namespace ProvenanceGraph

def apply (g : ProvenanceGraph) : GraphOp → Except IfcError ProvenanceGraph
  | .addCall name nodeId uuid auto => g.addCall name nodeId uuid auto
  | .addData name label nodeId uuid => .ok (g.addData name label nodeId uuid)
  | .addDataField parent fieldName label nodeId uuid =>
    g.addDataField parent fieldName label nodeId uuid
  | .addDeniedAction name uuid => .ok (g.addDeniedAction name uuid)
  | .addEdge source target kind => g.addEdge source target kind

def after (g : ProvenanceGraph) (op : GraphOp) : ProvenanceGraph :=
  match g.apply op with
  | .ok g' => g'
  | .error _ => g

def run (g : ProvenanceGraph) (ops : List GraphOp) : ProvenanceGraph := ops.foldl after g

def newId (g : ProvenanceGraph) : GraphOp → Option Str
  | .addCall _ nodeId uuid _ => some (chooseId nodeId (txt "call:") uuid)
  | .addData _ _ nodeId uuid => some (chooseId nodeId (txt "data:") uuid)
  | .addDataField parent _ _ nodeId uuid =>
    match g.nodes.get? parent with
    | some node => if node.kind = .data then some (chooseId nodeId (txt "field:") uuid) else none
    | none => none
  | .addDeniedAction _ uuid => some (txt "denied:" ++ uuid)
  | .addEdge _ _ _ => none

end ProvenanceGraph

end TexGovernance.Ifc

/-!
## Flow checks and their proofs

The two checkers and the offline verifier of `ifc/noninterference.py`. The
checkers differ in the label they forbid and in the statement they write, so
one definition has these as parameters. A proof checks its own fields when it
is built; every error inside the verifier is a rejection.
-/

namespace TexGovernance.Ifc
open PyStr PyDict PyRepr GraphSearch

inductive NonInterferenceVerdict where
  | holds
  | forbid
  deriving DecidableEq

structure FlowStep where
  nodeId : Str
  kind : NodeKind
  integrity : Option IntegrityLevel
  confidentiality : Option ConfidentialityLevel
  capacity : Option CapacityType
  edgeKindToNext : Option EdgeKind
  deriving DecidableEq

structure FlowWitness where
  sourceId : Str
  sinkId : Str
  sourceConfidentiality : ConfidentialityLevel
  steps : List FlowStep
  deriving DecidableEq

structure FlowProof where
  propertyStatement : Str
  verdict : NonInterferenceVerdict
  sinkId : Str
  sinkAction : Str
  sinkClearance : ConfidentialityLevel
  graphFingerprint : Str
  checkedNodeCount : ℕ
  checkedEdgeCount : ℕ
  proofKind : Str
  witness : Option FlowWitness
  deriving DecidableEq

/-- `Field(min_length=1, max_length=n)`. -/
def isField (n : ℕ) (s : Str) : Prop := s ≠ [] ∧ fitsField n s

instance (n : ℕ) (s : Str) : Decidable (isField n s) := inferInstanceAs (Decidable (_ ∧ _))

def FlowStep.make (step : FlowStep) : Except IfcError FlowStep :=
  if isField 300 step.nodeId then .ok step else .error (.python .valueError)

def FlowWitness.make (w : FlowWitness) : Except IfcError FlowWitness :=
  if isField 300 w.sourceId ∧ isField 300 w.sinkId ∧ 2 ≤ w.steps.length then .ok w
  else .error (.python .valueError)

def FlowProof.make (p : FlowProof) : Except IfcError FlowProof :=
  if isField 400 p.propertyStatement ∧ isField 300 p.sinkId ∧ fitsField 200 p.sinkAction ∧
      p.graphFingerprint.length = 64 ∧ Plain p.graphFingerprint ∧ isField 40 p.proofKind then .ok p
  else .error (.python .valueError)

def confPropertyPrefix : Str := txt "no_confidentiality>"

def integPropertyPrefix : Str := txt "no_untrusted_integrity_datum_reaches_privileged["

def confStatement (sinkClearance : ConfidentialityLevel) (sinkId : Str) : Str :=
  confPropertyPrefix ++ sinkClearance.label ++ txt "_nondeclassifiable_datum_reaches[" ++ sinkId ++
    txt "]"

def integStatement (sinkId : Str) : Str := integPropertyPrefix ++ sinkId ++ txt "]"

def leaks (clearance : ConfidentialityLevel) (label : IfcLabel) : Bool :=
  clearance.toNat < label.confidentiality.toNat && !label.mayDeclassify

def taints (label : IfcLabel) : Bool := label.integrity.isUntrusted

structure FlowProperty where
  offends : IfcLabel → Bool
  statement : Str → Str
  clearance : ConfidentialityLevel

def confProperty (clearance : ConfidentialityLevel) : FlowProperty :=
  ⟨leaks clearance, confStatement clearance, clearance⟩

def integProperty : FlowProperty := ⟨taints, integStatement, .public_⟩

section Checks

variable (g : ProvenanceGraph)

def isOffending (offends : IfcLabel → Bool) (id : Str) : Bool :=
  match g.nodes.get? id with
  | some node =>
    node.kind.isData && match node.label with
      | some label => offends label
      | none => false
  | none => false

def stepFor (hop : Str × Option EdgeKind) : Except IfcError FlowStep :=
  match g.nodes.get? hop.1 with
  | none => .error (.keyError hop.1)
  | some node =>
    FlowStep.make ⟨hop.1, node.kind, node.label.map IfcLabel.integrity,
      node.label.map IfcLabel.confidentiality, node.label.map IfcLabel.capacity, hop.2⟩

def reconstructSteps (sourceId sinkId : Str) (forwardNext : Dict Str (Str × EdgeKind)) :
    Except IfcError (List FlowStep) :=
  (trail sinkId forwardNext (g.nodeCount + 1) sourceId).mapM (stepFor g)

def liftPython {α : Type} : Except PyErr α → Except IfcError α
  | .ok a => .ok a
  | .error e => .error (.python e)

def forbidProof (property : FlowProperty) (sinkId sinkAction fingerprint sourceId : Str)
    (forwardNext : Dict Str (Str × EdgeKind)) : Except IfcError FlowProof := do
  let steps ← reconstructSteps g sourceId sinkId forwardNext
  match (g.nodes.get? sourceId).bind Node.label with
  | none => .error (.python .assertionError)
  | some sourceLabel => do
    let witness ← FlowWitness.make ⟨sourceId, sinkId, sourceLabel.confidentiality, steps⟩
    FlowProof.make
      { propertyStatement := property.statement sinkId, verdict := .forbid, sinkId, sinkAction,
        sinkClearance := property.clearance, graphFingerprint := fingerprint,
        checkedNodeCount := g.nodeCount, checkedEdgeCount := g.edgeCount,
        proofKind := txt "witness_path", witness := some witness }

def checkFlow (property : FlowProperty) (sinkId sinkAction : Str) : Except IfcError FlowProof := do
  let fingerprint ← liftPython g.fingerprint
  if g.hasNode sinkId = false then
    .error (.keyError (txt "sink node not found in graph: " ++ sinkId))
  else
    let sought id := id ≠ sinkId && isOffending g property.offends id
    match search sought g.dataFlowInEdges (g.nodeCount + 1) (initial sinkId) with
    | none => .error (.python .other)
    | some (none, _) =>
      FlowProof.make
        { propertyStatement := property.statement sinkId, verdict := .holds, sinkId, sinkAction,
          sinkClearance := property.clearance, graphFingerprint := fingerprint,
          checkedNodeCount := g.nodeCount, checkedEdgeCount := g.edgeCount,
          proofKind := txt "exhaustive_replay", witness := none }
    | some (some sourceId, forwardNext) =>
      forbidProof g property sinkId sinkAction fingerprint sourceId forwardNext

def checkNoninterference (sinkId : Str) (sinkClearance : ConfidentialityLevel) (sinkAction : Str) :
    Except IfcError FlowProof := checkFlow g (confProperty sinkClearance) sinkId sinkAction

def checkIntegrityEgress (sinkId sinkAction : Str) : Except IfcError FlowProof :=
  checkFlow g integProperty sinkId sinkAction

def proofIsIntegrity (proof : FlowProof) : Option Bool :=
  if integPropertyPrefix.isPrefixOf proof.propertyStatement then some true
  else if confPropertyPrefix.isPrefixOf proof.propertyStatement then some false
  else none

def proofProperty (proof : FlowProof) (isIntegrity : Bool) : FlowProperty :=
  if isIntegrity then integProperty else confProperty proof.sinkClearance

def stepMatches (step : FlowStep) : Bool :=
  match g.nodes.get? step.nodeId with
  | none => false
  | some node =>
    node.kind = step.kind &&
      match node.label with
      | none => step.integrity = none && step.confidentiality = none && step.capacity = none
      | some label =>
        step.integrity = some label.integrity && step.confidentiality = some label.confidentiality &&
          step.capacity = some label.capacity

def stepsVerify : List FlowStep → Bool
  | [] => true
  | [last] => stepMatches g last && last.edgeKindToNext = none
  | step :: next :: rest =>
    stepMatches g step &&
      (match step.edgeKindToNext with
        | none => false
        | some kind => kind ≠ .counterfactual && g.hasEdge step.nodeId next.nodeId kind) &&
      stepsVerify (next :: rest)

def witnessVerifies (property : FlowProperty) (proof : FlowProof) (witness : FlowWitness) : Bool :=
  2 ≤ witness.steps.length &&
    (witness.steps.head?.map FlowStep.nodeId = some witness.sourceId) &&
    (witness.steps.getLast?.map FlowStep.nodeId = some proof.sinkId) &&
    (witness.sinkId = proof.sinkId) &&
    (match g.nodes.get? proof.sinkId with
      | none => false
      | some sink => sink.kind = .call) &&
    (match g.nodes.get? witness.sourceId with
      | none => false
      | some source =>
        source.kind.isData &&
          match source.label with
          | none => false
          | some label =>
            property.offends label && label.confidentiality = witness.sourceConfidentiality) &&
    stepsVerify g witness.steps

def verifyBody (proof : FlowProof) : Except IfcError Bool := do
  let fingerprint ← liftPython g.fingerprint
  if fingerprint ≠ proof.graphFingerprint then return false
  else
    match proofIsIntegrity proof with
    | none => return false
    | some isIntegrity =>
      let property := proofProperty proof isIntegrity
      if property.statement proof.sinkId ≠ proof.propertyStatement then return false
      else
        match proof.verdict with
        | .holds =>
          if proof.witness.isSome then return false
          else do
            let recheck ← checkFlow g property proof.sinkId proof.sinkAction
            return recheck.verdict = .holds && recheck.propertyStatement = proof.propertyStatement
        | .forbid =>
          match proof.witness with
          | none => return false
          | some witness => return witnessVerifies g property proof witness

def verifyFlowProof (proof : FlowProof) : Bool :=
  match verifyBody g proof with
  | .ok accepted => accepted
  | .error _ => false

end Checks

end TexGovernance.Ifc
