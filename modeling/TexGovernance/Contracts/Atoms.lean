import TexGovernance.Contracts.Ltl
import TexGovernance.Lib.PyFloat

/-!
# Contract atoms (`contracts/_atoms.py`)

How an atom of a contract formula is parsed and resolved against a proposed event and an
ecosystem snapshot, and the evaluation of a formula with a resolver that may raise. The
comparison `_compare` is a parameter.
-/

namespace TexGovernance.Contracts
open FiniteTrace PyStr

/-- A value of a payload; `other` stands for an object with a text form. -/
inductive PyVal where
  | none
  | bool (b : Bool)
  | int (n : ℤ)
  | float (q : ℚ)
  | str (s : Str)
  | seq (items : List PyVal)
  | dict (items : List (Str × PyVal))
  | other (text : Str)

/-- `ProposedEvent`, with `proposed_at` in ISO format. -/
structure ProposedEvent where
  eventKind : Str
  actorEntityId : Str
  payload : List (Str × PyVal)
  proposedAt : Str
  upstreamEventIds : List Str

/-- `EcosystemState`: the flat mirror `make_resolver` builds of its fields,
and the two fields that are read directly. -/
structure EcosystemState where
  mirror : List (Str × PyVal)
  activeCapabilityIds : List Str
  aggregateDriftSignals : List (Str × PyVal)

structure ContractContext where
  proposedEvent : ProposedEvent
  state : EcosystemState

inductive Op where
  | eq
  | ne
  | ge
  | le
  | gt
  | lt
  | contains
  | notContains
  | matches
  | isIn
  | notIn
  | between
  | exists
  deriving DecidableEq

/-- `_OP_TOKENS`, in the order they are tried. -/
def opTokens : List (Str × Op) :=
  [(txt "==", .eq), (txt "!=", .ne), (txt ">=", .ge), (txt "<=", .le), (txt ">", .gt),
    (txt "<", .lt), (txt "~contains:", .contains), (txt "~not_contains:", .notContains),
    (txt "~matches:", .matches), (txt "~in:", .isIn), (txt "~not_in:", .notIn),
    (txt "~between:", .between), (txt "~exists", .exists)]

inductive TagNamespace where
  | kind
  | capability
  | actor
  | upstream
  deriving DecidableEq

inductive PathNamespace where
  | field
  | state
  | drift
  deriving DecidableEq

inductive ParsedAtom where
  | tag (ns : TagNamespace) (literal : Str)
  | path (ns : PathNamespace) (path : Str) (op : Op) (literal : Option Str)
  deriving DecidableEq

def tagNamespace? (s : Str) : Option TagNamespace :=
  if s = txt "kind" then some .kind
  else if s = txt "capability" then some .capability
  else if s = txt "actor" then some .actor
  else if s = txt "upstream" then some .upstream
  else none

def pathNamespace? (s : Str) : Option PathNamespace :=
  if s = txt "field" then some .field
  else if s = txt "state" then some .state
  else if s = txt "drift" then some .drift
  else none

def findSub (needle : Str) : Str → Option ℕ
  | [] => if needle = [] then some 0 else none
  | c :: rest =>
    if needle.isPrefixOf (c :: rest) then some 0 else (findSub needle rest).map (· + 1)

def splitOperator (ns : PathNamespace) (rest : Str) : List (Str × Op) → Except PyErr ParsedAtom
  | [] => .error .valueError
  | (token, op) :: more =>
    match findSub token rest with
    | none => splitOperator ns rest more
    | some idx =>
      let literal := rest.drop (idx + token.length)
      if op = .exists then
        if literal = [] then .ok (.path ns (rest.take idx) op none) else .error .valueError
      else .ok (.path ns (rest.take idx) op (some literal))

def parseAtom (atom : Str) : Except PyErr ParsedAtom :=
  if cp ':' ∉ atom then .ok (.path .state atom .eq (some (txt "true")))
  else
    let ns := strip (atom.takeWhile (· ≠ cp ':'))
    let rest := (atom.dropWhile (· ≠ cp ':')).tail
    match tagNamespace? ns with
    | some tag => .ok (.tag tag rest)
    | none => match pathNamespace? ns with
      | some path => splitOperator path rest opTokens
      | none => .error .valueError

def lookupSegments : List Str → PyVal → PyVal
  | [], cur => cur
  | seg :: rest, .dict items =>
    match items.lookup seg with
    | none => .none
    | some .none => .none
    | some v => lookupSegments rest v
  | _ :: _, _ => .none

def lookupPath (root : List (Str × PyVal)) (path : Str) : PyVal :=
  if path = [] then .none else lookupSegments (path.splitOn (cp '.')) (.dict root)

section Resolver

variable (compare : PyVal → Op → Option Str → Except PyErr Bool)

/-- `make_resolver`; the resolver does not look at the trace element. -/
def makeResolver (ctx : ContractContext) (atom : Str) : Except PyErr Bool := do
  match ← parseAtom atom with
  | .tag .kind literal => .ok (decide (ctx.proposedEvent.eventKind = literal))
  | .tag .actor literal => .ok (decide (ctx.proposedEvent.actorEntityId = literal))
  | .tag .capability literal => .ok (decide (literal ∈ ctx.state.activeCapabilityIds))
  | .tag .upstream literal => .ok (decide (literal ∈ ctx.proposedEvent.upstreamEventIds))
  | .path .field path op literal =>
    compare (lookupPath ctx.proposedEvent.payload path) op literal
  | .path .state path op literal => compare (lookupPath ctx.state.mirror path) op literal
  | .path .drift path op literal =>
    compare ((ctx.state.aggregateDriftSignals.lookup path).getD .none) op literal

end Resolver

def untilWalkM {ε : Type} (goal keep : ℕ → Except ε Bool) : List ℕ → Except ε Bool
  | [] => .ok false
  | j :: rest => do
    if ← goal j then return true
    if ← keep j then untilWalkM goal keep rest else return false

section Raising

variable {Elem : Type} (resolver : Str → Elem → Except PyErr Bool)

/-- `_eval_ltlf` again, in its order of evaluation: what a short circuit or an
early return skips cannot raise. -/
def evalLtlfM : Node → List Elem → ℕ → Except PyErr Bool
  | .const value, _, _ => .ok value
  | .atom name, t, pos =>
    match t[pos]? with
    | none => .ok false
    | some elem => resolver name elem
  | .not arg, t, pos => do return !(← evalLtlfM arg t pos)
  | .and left right, t, pos => do
    if ← evalLtlfM left t pos then evalLtlfM right t pos else return false
  | .or left right, t, pos => do
    if ← evalLtlfM left t pos then return true else evalLtlfM right t pos
  | .implies left right, t, pos => do
    if ← evalLtlfM left t pos then evalLtlfM right t pos else return true
  | .next arg, t, pos => if pos + 1 ≥ t.length then .ok false else evalLtlfM arg t (pos + 1)
  | .weakNext arg, t, pos => if pos + 1 ≥ t.length then .ok true else evalLtlfM arg t (pos + 1)
  | .globally arg, t, pos => (span pos t.length).allM fun k => evalLtlfM arg t k
  | .eventually arg, t, pos => (span pos t.length).anyM fun k => evalLtlfM arg t k
  | .boundedEventually bound arg, t, pos =>
    (span pos (min (pos + bound + 1) t.length)).anyM fun k => evalLtlfM arg t k
  | .until left right, t, pos =>
    untilWalkM (fun j => evalLtlfM right t j) (fun j => evalLtlfM left t j) (span pos t.length)

end Raising

theorem untilWalkM_ok {ε : Type} (goal keep : ℕ → Bool) (js : List ℕ) :
    untilWalkM (ε := ε) (fun j => .ok (goal j)) (fun j => .ok (keep j)) js =
      .ok (untilWalk goal keep false js) := by
  induction js with
  | nil => rfl
  | cons j rest ih =>
    unfold untilWalkM untilWalk
    cases goal j with
    | true => rfl
    | false =>
      cases keep j with
      | true => exact ih
      | false => rfl

theorem allM_ok {ε : Type} (p : ℕ → Bool) (js : List ℕ) :
    js.allM (m := Except ε) (fun j => .ok (p j)) = .ok (js.all p) := by
  induction js with
  | nil => rfl
  | cons j rest ih =>
    unfold List.allM List.all
    cases p j with
    | true => exact ih
    | false => rfl

theorem anyM_ok {ε : Type} (p : ℕ → Bool) (js : List ℕ) :
    js.anyM (m := Except ε) (fun j => .ok (p j)) = .ok (js.any p) := by
  induction js with
  | nil => rfl
  | cons j rest ih =>
    unfold List.anyM List.any
    cases p j with
    | true => rfl
    | false => exact ih

theorem evalLtlfM_ok {Elem : Type} (resolver : Str → Elem → Bool) (node : Node) (t : List Elem)
    (pos : ℕ) :
    evalLtlfM (fun name elem => .ok (resolver name elem)) node t pos =
      .ok (evalLtlf resolver node t pos) := by
  induction node generalizing pos with
  | const value => rfl
  | atom name =>
    simp only [evalLtlfM, evalLtlf]
    cases t[pos]? with
    | none => rfl
    | some elem => rfl
  | not arg ih =>
    simp only [evalLtlfM, evalLtlf, ih]
    rfl
  | and left right ihl ihr =>
    simp only [evalLtlfM, evalLtlf, ihl, ihr]
    cases evalLtlf resolver left t pos with
    | true => rfl
    | false => rfl
  | or left right ihl ihr =>
    simp only [evalLtlfM, evalLtlf, ihl, ihr]
    cases evalLtlf resolver left t pos with
    | true => rfl
    | false => rfl
  | implies left right ihl ihr =>
    simp only [evalLtlfM, evalLtlf, ihl, ihr]
    cases evalLtlf resolver left t pos with
    | true => rfl
    | false => rfl
  | next arg ih =>
    simp only [evalLtlfM, evalLtlf, ih]
    split
    · rfl
    · rfl
  | weakNext arg ih =>
    simp only [evalLtlfM, evalLtlf, ih]
    split
    · rfl
    · rfl
  | globally arg ih =>
    simp only [evalLtlfM, evalLtlf, ih]
    exact allM_ok _ _
  | eventually arg ih =>
    simp only [evalLtlfM, evalLtlf, ih]
    exact anyM_ok _ _
  | boundedEventually bound arg ih =>
    simp only [evalLtlfM, evalLtlf, ih]
    exact anyM_ok _ _
  | «until» left right ihl ihr =>
    simp only [evalLtlfM, evalLtlf, ihl, ihr]
    exact untilWalkM_ok _ _ _

/-- `trace_for` and `LTLFormula.evaluate_finite` as the enforcer uses them: a
one-element trace with the event's payload, at position 0. -/
def evaluateFinite (compare : PyVal → Op → Option Str → Except PyErr Bool)
    (ctx : ContractContext) (formula : Node) : Except PyErr Bool :=
  evalLtlfM (fun atom _ => makeResolver compare ctx atom) formula [ctx.proposedEvent.payload] 0

end TexGovernance.Contracts
