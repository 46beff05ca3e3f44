import TexGovernance.Lib.PyJson
import TexGovernance.Pcas.Ast
import TexGovernance.Pcas.Stratify

/-!
# Relations and rules

`pcas/runtime/relation.py` and the part of `pcas/runtime/evaluator.py` that
evaluates one rule: positive atoms are joined one after the other, helper
calls and negated atoms filter the substitutions, and the head is grounded.
-/

namespace TexGovernance.Pcas
open PyStr PyDict

/-- A relation; `facts` lists its frozen set. -/
structure Relation where
  name : Str
  arity : ℕ
  facts : List Fact
  arity_eq : ∀ f ∈ facts, f.length = arity

def memFacts (f : Fact) (facts : List Fact) : Bool := facts.any (factEq f)

/-- `set.add`: an equal element that is there already stays. -/
def addFact (facts : List Fact) (f : Fact) : List Fact :=
  if memFacts f facts then facts else facts ++ [f]

def unionFacts (facts additions : List Fact) : List Fact := additions.foldl addFact facts

section Relations

variable (cc : CharClasses) (order : SetOrder)

def Relation.make (name : Str) (arity : ℕ) (facts : List Fact) : Except PcasError Relation :=
  if startsLower cc name = false then .error .valueError
  else if h : ∀ f ∈ facts, f.length = arity then .ok ⟨name, arity, facts, h⟩
  else .error .valueError

def Relation.withFacts (rel : Relation) (additions : List Fact) : Except PcasError Relation :=
  Relation.make cc rel.name rel.arity (unionFacts rel.facts additions)

def factKey (columns : List ℕ) (f : Fact) : Except PcasError (List FactValue) :=
  columns.mapM fun c =>
    match f[c]? with
    | some v => .ok v
    | none => .error .indexError

/-- One entry of the index over `columns`. -/
def indexEntry (columns : List ℕ) (f : Fact) : Except PcasError (List FactValue × Fact) := do
  let key ← factKey columns f
  return (key, f)

/-- The facts whose `columns` equal `values`. The index reads every fact. -/
def Relation.lookup (rel : Relation) (columns : List ℕ) (values : List FactValue) :
    Except PcasError (List Fact) :=
  if columns.isEmpty then .ok (order.facts rel.facts)
  else do
    let keyed ← (order.facts rel.facts).mapM (indexEntry columns)
    return (keyed.filter fun e => factEq e.1 values).map Prod.snd

end Relations

abbrev Subst := Str → Option FactValue

def emptySubst : Subst := fun _ => none

def bindVar (s : Subst) (name : Str) (v : FactValue) : Subst :=
  fun x => if x = name then some v else s x

def resolveTerm (s : Subst) : Term → Option FactValue
  | .const v => some v
  | .var name => if isAnonymous name then none else s name

def groundAtom (a : Atom) (s : Subst) : Option Fact := a.args.mapM (resolveTerm s)

def boundColumns (s : Subst) (args : List Term) : List (ℕ × FactValue) :=
  args.zipIdx.filterMap fun e => (resolveTerm s e.1).map fun v => (e.2, v)

/-- The inner loop of `_join_atom`: `none` when the fact does not match. -/
def matchFact (f : Fact) : ℕ → List Term → Subst → Except PcasError (Option Subst)
  | _, [], s => .ok (some s)
  | i, .const v :: args, s =>
    match f[i]? with
    | none => .error .indexError
    | some w => if pyEq w v then matchFact f (i + 1) args s else .ok none
  | i, .var name :: args, s =>
    if isAnonymous name then matchFact f (i + 1) args s
    else match f[i]? with
      | none => .error .indexError
      | some w =>
        match s name with
        | some v => if pyEq v w then matchFact f (i + 1) args s else .ok none
        | none => matchFact f (i + 1) args (bindVar s name w)

section Derive

variable (order : SetOrder)

def joinOne (a : Atom) (rel : Relation) (s : Subst) : Except PcasError (List Subst) := do
  let bound := boundColumns s a.args
  let candidates ← rel.lookup order (bound.map Prod.fst) (bound.map Prod.snd)
  let matched ← candidates.mapM fun f => matchFact f 0 a.args s
  return matched.filterMap id

def joinAtom (a : Atom) (subs : List Subst) (facts : Dict Str Relation) :
    Except PcasError (List Subst) :=
  match facts.get? a.predicate with
  | none => .ok []
  | some rel => do
    let joined ← subs.mapM (joinOne order a rel)
    return joined.flatten

def joinAtoms (facts : Dict Str Relation) : List Atom → List Subst → Except PcasError (List Subst)
  | [], subs => .ok subs
  | a :: atoms, subs => do
    let subs ← joinAtom order a subs facts
    if subs.isEmpty then return [] else joinAtoms facts atoms subs

inductive HelperFunction where
  | predicate (arity : ℕ) (fn : List FactValue → Bool)
  | function (arity : ℕ) (fn : List FactValue → Option FactValue)

def HelperFunction.arity : HelperFunction → ℕ
  | .predicate arity _ => arity
  | .function arity _ => arity

abbrev Registry := Dict Str HelperFunction

def bindOutput (output : Term) (result : FactValue) (s : Subst) : Option Subst :=
  match output with
  | .const v => if pyEq result v then some s else none
  | .var name =>
    if isAnonymous name then some s
    else match s name with
      | some v => if pyEq v result then some s else none
      | none => some (bindVar s name result)

def callHelper (reg : HelperFunction) (args : List Term) (s : Subst) : Except PcasError (Option Subst) :=
  match reg with
  | .predicate _ fn =>
    match args.mapM (resolveTerm s) with
    | none => .ok none
    | some values => .ok (if fn values then some s else none)
  | .function _ fn =>
    match args.getLast? with
    | none => .error .indexError
    | some output =>
      match args.dropLast.mapM (resolveTerm s) with
      | none => .ok none
      | some values => .ok ((fn values).bind fun result => bindOutput output result s)

variable (repr : Str → Str) (helpers : Registry)

def arityMismatch (name : Str) (expected given : ℕ) : Str :=
  txt "helper " ++ repr name ++ txt " arity mismatch: registry says " ++ natText expected ++
    txt ", call has " ++ natText given ++ txt " args"

def applyHelpers : List HelperCall → List Subst → Except PcasError (List Subst)
  | [], subs => .ok subs
  | call :: calls, subs =>
    match helpers.get? call.name with
    | none => .ok []
    | some reg =>
      if call.args.length ≠ reg.arity then
        .error (.evaluation (arityMismatch repr call.name reg.arity call.args.length))
      else do
        let called ← subs.mapM (callHelper reg call.args)
        let subs := called.filterMap id
        if subs.isEmpty then return [] else applyHelpers calls subs

def keepsNegated (facts : Dict Str Relation) (s : Subst) (n : NegatedAtom) : Bool :=
  match groundAtom n.atom s with
  | none => false
  | some ground =>
    match facts.get? n.atom.predicate with
    | none => true
    | some rel => !memFacts ground rel.facts

def filterNegated (negated : List NegatedAtom) (subs : List Subst) (facts : Dict Str Relation) :
    List Subst :=
  subs.filter fun s => negated.all (keepsNegated facts s)

/-- The substitutions of a rule before negation: the bindings of its positive
atoms and helper calls. -/
def bindings (r : Rule) (facts : Dict Str Relation) : Except PcasError (List Subst) := do
  let subs ← joinAtoms order facts r.positiveAtoms [emptySubst]
  if subs.isEmpty then return []
  else applyHelpers repr helpers r.helperCalls subs

def derive (r : Rule) (facts : Dict Str Relation) : Except PcasError (List Fact) := do
  let subs ← bindings order repr helpers r facts
  return (filterNegated r.negatedAtoms subs facts).filterMap (groundAtom r.head)

end Derive

end TexGovernance.Pcas

/-!
## The helper registry

The helpers that `pcas/runtime/helpers.py` registers. The function behind
`json_extract` is a parameter: it reads a JSON document.
-/

namespace TexGovernance.Pcas
open PyStr PyDict PyJson

def equals : List FactValue → Bool
  | [x, y] => pyEq x y
  | _ => false

/-- `_greater` of `pcas/runtime/helpers.py`. -/
def greater : List FactValue → Bool
  | [.int x, .int y] => decide (y < x)
  | [.str x, .str y] => !strLe x y
  | _ => false

end TexGovernance.Pcas

/-!
## The closure of a program

The class `Evaluator` of `pcas/runtime/evaluator.py`: the constructor with its
table of arities, the seeding of the relations, and the loop over the rounds
of a stratum.
-/

namespace TexGovernance.Pcas
open PyStr PyDict

structure Evaluator where
  program : Program
  strata : List Stratum
  helpers : Registry
  relationArities : Dict Str ℕ

def maxIterations : ℕ := 1024

def noteArity (arities : Dict Str ℕ) (p : Str) (n : ℕ) : Dict Str ℕ :=
  if (arities.get? p).isSome then arities else arities.set p n

section Constructor

variable (repr : Str → Str) (order : SetOrder)

def inconsistentArity (p : Str) (known given : ℕ) : Str :=
  txt "inconsistent arity for " ++ repr p ++ txt ": " ++ natText known ++ txt " vs " ++ natText given

def ruleArities (arities : Dict Str ℕ) (r : Rule) : Except PcasError (Dict Str ℕ) :=
  let arities := noteArity arities r.head.predicate r.head.arity
  let known := (arities.get? r.head.predicate).getD 0
  if known ≠ r.head.arity then
    .error (.evaluation (inconsistentArity repr r.head.predicate known r.head.arity))
  else
    let arities := r.positiveAtoms.foldl (fun t a => noteArity t a.predicate a.arity) arities
    .ok (r.negatedAtoms.foldl (fun t n => noteArity t n.atom.predicate n.atom.arity) arities)

def Evaluator.make (p : Program) (helpers : Registry) : Except PcasError Evaluator := do
  let (program, strata) ← stratify repr order p helpers.keys
  let arities ← program.rules.foldlM (ruleArities repr) Dict.empty
  return ⟨program, strata, helpers, arities⟩

end Constructor

section Evaluate

variable (cc : CharClasses) (repr : Str → Str) (order : SetOrder)

def edbArity (name : Str) (given expected : ℕ) : Str :=
  txt "EDB relation " ++ repr name ++ txt " has arity " ++ natText given ++
    txt " but program expects " ++ natText expected

def checkEdb (arities : Dict Str ℕ) : List (Str × Relation) → Except PcasError Unit
  | [] => .ok ()
  | (name, rel) :: rest =>
    match arities.get? name with
    | none => checkEdb arities rest
    | some expected =>
      if rel.arity ≠ expected then .error (.evaluation (edbArity repr name rel.arity expected))
      else checkEdb arities rest

def seedEmpty (facts : Dict Str Relation) (e : Str × ℕ) : Except PcasError (Dict Str Relation) :=
  if (facts.get? e.1).isSome then .ok facts
  else do
    let rel ← Relation.make cc e.1 e.2 []
    return facts.set e.1 rel

/-- `facts[p] = facts[p].with_facts(additions)`. -/
def addFacts (facts : Dict Str Relation) (p : Str) (additions : List Fact) :
    Except PcasError (Dict Str Relation) :=
  match facts.get? p with
  | none => .error .keyError
  | some rel => do
    let rel ← rel.withFacts cc additions
    return facts.set p rel

def nonGroundHead (p : Str) : Str := txt "fact rule has non-ground head: " ++ repr p

def seedFact (facts : Dict Str Relation) (r : Rule) : Except PcasError (Dict Str Relation) :=
  if r.isFact then
    match groundAtom r.head emptySubst with
    | none => .error (.evaluation (nonGroundHead repr r.head.predicate))
    | some ground => addFacts cc facts r.head.predicate [ground]
  else .ok facts

def ruleAdditions (helpers : Registry) (facts : Dict Str Relation) (new : Dict Str (List Fact))
    (r : Rule) : Except PcasError (Dict Str (List Fact)) :=
  if r.isFact then .ok new
  else do
    let derived ← derive order repr helpers r facts
    if derived.isEmpty then return new
    else
      match facts.get? r.head.predicate with
      | none => Except.error PcasError.keyError
      | some rel =>
        let additions := derived.filter fun f => !memFacts f rel.facts
        if additions.isEmpty then return new
        else
          let bucket := (new.get? r.head.predicate).getD []
          return new.set r.head.predicate (unionFacts bucket additions)

def commit (facts : Dict Str Relation) (e : Str × List Fact) : Except PcasError (Dict Str Relation) :=
  if e.2.isEmpty then .ok facts else addFacts cc facts e.1 e.2

def iterationsExceeded (index : ℕ) : Str :=
  txt "stratum " ++ natText index ++ txt " exceeded " ++ natText maxIterations ++ txt " iterations"

def stratumRounds (helpers : Registry) (stratum : Stratum) :
    ℕ → Dict Str Relation → Except PcasError (Dict Str Relation)
  | 0, _ => .error (.evaluation (iterationsExceeded stratum.index))
  | rounds + 1, facts => do
    let new ← stratum.rules.foldlM (ruleAdditions repr order helpers facts) Dict.empty
    if new.items.any (fun e => !e.2.isEmpty) then do
      let facts ← new.items.foldlM (commit cc) facts
      stratumRounds helpers stratum rounds facts
    else return facts

def evaluateStratum (helpers : Registry) (facts : Dict Str Relation) (stratum : Stratum) :
    Except PcasError (Dict Str Relation) :=
  stratumRounds cc repr order helpers stratum maxIterations facts

def Evaluator.evaluate (ev : Evaluator) (edb : Dict Str Relation) :
    Except PcasError (Dict Str Relation) := do
  checkEdb repr ev.relationArities edb.items
  let facts ← ev.relationArities.items.foldlM (seedEmpty cc) edb
  let facts ← ev.program.rules.foldlM (seedFact cc repr) facts
  ev.strata.foldlM (evaluateStratum cc repr order ev.helpers) facts

end Evaluate

end TexGovernance.Pcas
