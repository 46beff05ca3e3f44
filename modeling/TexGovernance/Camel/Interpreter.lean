import Mathlib.Order.Lattice
import TexGovernance.Lib.PyJson
import TexGovernance.Lib.PyRepr
import TexGovernance.Lib.TwoRun

/-!
# Plans and the capability-tracking interpreter

The data of `camel/capability.py`, `camel/value.py`, `camel/plan.py` and
`camel/policy.py`. A set of capabilities is the list of its members; only
their levels and sources are ever read. What a tuple holds is a parameter.
-/

namespace TexGovernance.Camel
open PyStr PyDict PyJson PyRepr

inductive CapabilityLevel where
  | trusted
  | user
  | untrusted
  deriving DecidableEq, Repr

namespace CapabilityLevel

def toNat : CapabilityLevel → ℕ
  | .trusted => 0
  | .user => 1
  | .untrusted => 2

theorem toNat_injective : Function.Injective toNat := by
  intro a b h
  cases a <;> cases b <;> first | rfl | cases h

instance : LinearOrder CapabilityLevel := LinearOrder.lift' toNat toNat_injective

def name : CapabilityLevel → Str
  | .trusted => txt "TRUSTED"
  | .user => txt "USER"
  | .untrusted => txt "UNTRUSTED"

theorem le_user_iff (l : CapabilityLevel) : l ≤ .user ↔ l ≠ .untrusted := by
  cases l <;> decide

end CapabilityLevel

inductive ConfidentialityLevel where
  | public_
  | internal
  | confidential
  | restricted
  deriving DecidableEq, Repr

structure Capability where
  level : CapabilityLevel
  confidentiality : ConfidentialityLevel := .public_
  source : Str
  provenanceId : Option Str := none
  deriving DecidableEq

namespace Capability

def trusted (source : Str) : Capability := { level := .trusted, source := source }

def user (source : Str) : Capability := { level := .user, source := source }

def untrusted (source : Str) : Capability := { level := .untrusted, source := source }

end Capability

structure CapabilitySet where
  items : List Capability
  deriving DecidableEq

namespace CapabilitySet

def empty : CapabilitySet := ⟨[]⟩

def of (cap : Capability) : CapabilitySet := ⟨[cap]⟩

/-- TRUSTED for the empty set, otherwise the highest level of a member. -/
def level (c : CapabilitySet) : CapabilityLevel :=
  c.items.foldl (fun l cap => max l cap.level) .trusted

def sources (c : CapabilitySet) : List Str := (c.items.map Capability.source).dedup

def join (c d : CapabilitySet) : CapabilitySet := ⟨c.items ++ d.items⟩

theorem foldl_level_le_iff (items : List Capability) (start bound : CapabilityLevel) :
    items.foldl (fun l cap => max l cap.level) start ≤ bound ↔
      start ≤ bound ∧ ∀ cap ∈ items, cap.level ≤ bound := by
  induction items generalizing start with
  | nil => simp
  | cons cap items ih => rw [List.foldl_cons, ih, max_le_iff, List.forall_mem_cons, and_assoc]

theorem level_le_iff (c : CapabilitySet) (bound : CapabilityLevel) :
    c.level ≤ bound ↔ ∀ cap ∈ c.items, cap.level ≤ bound := by
  unfold level
  rw [foldl_level_le_iff]
  exact and_iff_right (Nat.zero_le _)

theorem level_join_le_iff (c d : CapabilitySet) (bound : CapabilityLevel) :
    (c.join d).level ≤ bound ↔ c.level ≤ bound ∧ d.level ≤ bound := by
  rw [level_le_iff, level_le_iff, level_le_iff]
  exact List.forall_mem_append

end CapabilitySet

/-- `str | int | bool | None | tuple`. -/
inductive RawValue (Obj : Type) where
  | str (s : Str)
  | int (z : ℤ)
  | bool (b : Bool)
  | none
  | tuple (items : List Obj)

structure CapValue (Obj : Type) where
  value : RawValue Obj
  caps : CapabilitySet

namespace CapValue

variable {Obj : Type}

def level (v : CapValue Obj) : CapabilityLevel := v.caps.level

def trusted (value : RawValue Obj) (source : Str) : CapValue Obj :=
  ⟨value, .of (.trusted source)⟩

def user (value : RawValue Obj) (source : Str) : CapValue Obj := ⟨value, .of (.user source)⟩

def untrusted (value : RawValue Obj) (source : Str) : CapValue Obj :=
  ⟨value, .of (.untrusted source)⟩

def derived (value : RawValue Obj) (fromValues : List (CapValue Obj)) : CapValue Obj :=
  ⟨value, fromValues.foldl (fun merged v => merged.join v.caps) .empty⟩

end CapValue

/-- An optional text with `Field(max_length=n)`. -/
structure OptionalText (n : ℕ) where
  text : Option Str
  fits : ∀ t ∈ text, fitsField n t

inductive Literal where
  | str (s : Str)
  | int (z : ℤ)
  | bool (b : Bool)
  | none

def Literal.value {Obj : Type} : Literal → RawValue Obj
  | .str s => .str s
  | .int z => .int z
  | .bool b => .bool b
  | .none => .none

inductive Expr where
  | literal (l : Literal)
  | var (name : FieldText 64)
  | read (source : FieldText 128) (key : OptionalText 128)

inductive PlanNode where
  | assign (name : FieldText 64) (expr : Expr)
  | call (tool : FieldText 128) (args : List Expr) (resultVar : OptionalText 64)
  | qllm (query : FieldText 4096) (inputs : List (FieldText 64)) (resultVar : FieldText 64)
  | return_ (expr : Expr)

namespace PlanNode

def isReturn : PlanNode → Bool
  | .return_ _ => true
  | _ => false

/-- `type(node).__name__`. -/
def typeName : PlanNode → Str
  | .assign _ _ => txt "Assign"
  | .call _ _ _ => txt "Call"
  | .qllm _ _ _ => txt "QLLM"
  | .return_ _ => txt "Return"

end PlanNode

structure Plan where
  nodes : List PlanNode

/-- The text of the `PlanError`, if there is one. -/
def Plan.validateStructure (plan : Plan) : Except Str Unit :=
  if plan.nodes.dropLast.any PlanNode.isReturn then .error (txt "Return must be the final node")
  else if plan.nodes.any PlanNode.isReturn then .ok ()
  else .error (txt "Plan must end with a Return node")

structure ToolPolicy where
  toolName : Str
  maxArgLevels : List CapabilityLevel
  forbiddenSources : List Str

section Policies

variable (repr : Str → Str)

def arityMismatch (toolName : Str) (expected got : ℕ) : Str :=
  txt "arity mismatch: tool " ++ repr toolName ++ txt " expects " ++ natText expected ++
    txt " args, got " ++ natText got

def levelExceeds (toolName : Str) (i : ℕ) (level maxLevel : CapabilityLevel) : Str :=
  txt "arg #" ++ natText i ++ txt " of " ++ repr toolName ++ txt ": level " ++ level.name ++
    txt " exceeds max " ++ maxLevel.name

def sourcesForbidden (toolName : Str) (i : ℕ) (forbidden : List Str) : Str :=
  txt "arg #" ++ natText i ++ txt " of " ++ repr toolName ++ txt ": source(s) " ++
    namesRepr repr (sortedNames forbidden) ++ txt " are forbidden"

/-- The loop over the arguments, from position `i` on. -/
def checkArgs (toolName : Str) (forbiddenSources : List Str) :
    ℕ → List CapabilitySet → List CapabilityLevel → Except Str Unit
  | i, caps :: restCaps, maxLevel :: restLevels =>
    if maxLevel < caps.level then .error (levelExceeds repr toolName i caps.level maxLevel)
    else
      let forbidden := caps.sources.filter (· ∈ forbiddenSources)
      if forbidden.isEmpty then checkArgs toolName forbiddenSources (i + 1) restCaps restLevels
      else .error (sourcesForbidden repr toolName i forbidden)
  | _, _, _ => .ok ()

def ToolPolicy.check (p : ToolPolicy) (argCaps : List CapabilitySet) : Except Str Unit :=
  if argCaps.length ≠ p.maxArgLevels.length then
    .error (arityMismatch repr p.toolName p.maxArgLevels.length argCaps.length)
  else checkArgs repr p.toolName p.forbiddenSources 0 argCaps p.maxArgLevels

theorem checkArgs_ok {toolName : Str} {forbiddenSources : List Str} {i : ℕ}
    {argCaps : List CapabilitySet} {maxLevels : List CapabilityLevel}
    (h : checkArgs repr toolName forbiddenSources i argCaps maxLevels = .ok ())
    (hlen : argCaps.length = maxLevels.length) :
    List.Forall₂ (fun caps maxLevel => caps.level ≤ maxLevel) argCaps maxLevels := by
  induction argCaps generalizing i maxLevels with
  | nil =>
    cases maxLevels with
    | nil => exact .nil
    | cons _ _ => cases hlen
  | cons caps restCaps ih =>
    cases maxLevels with
    | nil => cases hlen
    | cons maxLevel restLevels =>
      unfold checkArgs at h
      by_cases hlevel : maxLevel < caps.level
      · rw [if_pos hlevel] at h
        cases h
      · rw [if_neg hlevel] at h
        simp only at h
        split at h
        · exact .cons (not_lt.mp hlevel) (ih h (Nat.succ.inj hlen))
        · cases h

theorem ToolPolicy.check_ok {p : ToolPolicy} {argCaps : List CapabilitySet}
    (h : p.check repr argCaps = .ok ()) :
    List.Forall₂ (fun caps maxLevel => caps.level ≤ maxLevel) argCaps p.maxArgLevels := by
  unfold ToolPolicy.check at h
  by_cases hlen : argCaps.length ≠ p.maxArgLevels.length
  · rw [if_pos hlen] at h
    cases h
  · rw [if_neg hlen] at h
    exact checkArgs_ok repr h (not_not.mp hlen)

structure ToolPolicyRegistry where
  policies : Dict Str ToolPolicy
  isFrozen : Bool

namespace ToolPolicyRegistry

def new : ToolPolicyRegistry := ⟨Dict.empty, false⟩

/-- A `RuntimeError` when frozen, a `ValueError` for a tool that is there. -/
def register (r : ToolPolicyRegistry) (policy : ToolPolicy) : Except PyErr ToolPolicyRegistry :=
  if r.isFrozen then .error .other
  else if policy.toolName ∈ r.policies.keys then .error .valueError
  else .ok { r with policies := r.policies.set policy.toolName policy }

def freeze (r : ToolPolicyRegistry) : ToolPolicyRegistry := { r with isFrozen := true }

def policyFor (r : ToolPolicyRegistry) (toolName : Str) (arity : ℕ) : ToolPolicy :=
  match r.policies.get? toolName with
  | some registered => registered
  | none => ⟨toolName, List.replicate arity .trusted, []⟩

end ToolPolicyRegistry

end Policies

/-!
## The capability-tracking interpreter

`CamelInterpreter` of `camel/interpreter.py` with the stub of `camel/q_llm.py`.
A tool is a function of its tagged arguments; each invocation is recorded,
since it is the effect of a plan. Only a `CamelInterpreterError` halts a plan:
any other error leaves `run`.
-/

inductive RunError where
  | interpreter (message : Str)
  | python (e : PyErr)
  deriving DecidableEq

structure TraceEntry where
  nodeIndex : ℕ
  op : Str
  target : Option Str
  capLevel : Str
  sources : List Str
  note : Option Str
  deriving DecidableEq

def TraceEntry.make (entry : TraceEntry) : Except RunError TraceEntry :=
  if entry.op ≠ [] ∧ fitsField 64 entry.op ∧ (∀ t ∈ entry.target, fitsField 128 t) ∧
      entry.capLevel ≠ [] ∧ fitsField 16 entry.capLevel ∧ (∀ t ∈ entry.note, fitsField 500 t) then
    .ok entry
  else .error (.python .valueError)

structure ExecutionTrace where
  entries : List TraceEntry
  finalLevel : Str
  finalSources : List Str
  halted : Bool
  haltReason : Option Str
  deriving DecidableEq

def ExecutionTrace.make (trace : ExecutionTrace) : Except RunError ExecutionTrace :=
  if trace.finalLevel ≠ [] ∧ fitsField 16 trace.finalLevel ∧
      (∀ t ∈ trace.haltReason, fitsField 500 t) then .ok trace
  else .error (.python .valueError)

variable {Obj : Type}

inductive ToolResult (Obj : Type) where
  | raw (value : RawValue Obj)
  | tagged (value : CapValue Obj)

abbrev ToolFn (Obj : Type) := List (CapValue Obj) → ToolResult Obj

/-- `answer(query, inputs)`. -/
abbrev QuarantinedLLM := Str → List Str → Str

def stubQuarantinedLLM : QuarantinedLLM := fun query inputs =>
  (query ++ txt " :: " ++ (txt " | ").intercalate inputs).take 2048

structure CamelInterpreter (Obj : Type) where
  toolPolicies : ToolPolicyRegistry
  toolImpls : Dict Str (ToolFn Obj)
  qLlm : QuarantinedLLM
  untrustedEnv : Dict Str Str
  frozen : toolPolicies.isFrozen = true

def CamelInterpreter.make (toolPolicies : ToolPolicyRegistry) (toolImpls : Dict Str (ToolFn Obj))
    (qLlm : Option QuarantinedLLM) (untrustedEnv : Dict Str Str) :
    Except RunError (CamelInterpreter Obj) :=
  if h : toolPolicies.isFrozen = true then
    .ok ⟨toolPolicies, toolImpls, qLlm.getD stubQuarantinedLLM, untrustedEnv, h⟩
  else .error (.interpreter (txt "ToolPolicyRegistry must be frozen before interpreter use"))

structure ToolCall (Obj : Type) where
  tool : Str
  policy : ToolPolicy
  args : List (CapValue Obj)

/-- The local state of `run`. -/
structure RunState (Obj : Type) where
  env : Dict Str (CapValue Obj)
  calls : List (ToolCall Obj)
  entries : List TraceEntry
  finalValue : Option (CapValue Obj)
  halted : Bool
  haltReason : Option Str

def RunState.start : RunState Obj := ⟨Dict.empty, [], [], none, false, none⟩

section Steps

-- `repr` of a string and `str` of a tuple
variable (repr : Str → Str) (tupleText : List Obj → Except PyErr Str)

/-- `str(v.value) if v.value is not None else ""`. -/
def inputText : RawValue Obj → Except PyErr Str
  | .str s => .ok s
  | .int z => intText z
  | .bool true => .ok (txt "True")
  | .bool false => .ok (txt "False")
  | .none => .ok []
  | .tuple items => tupleText items

def readKey (source : Str) (key : Option Str) : Str :=
  match key with
  | some k => if k = [] then source else source ++ txt ":" ++ k
  | none => source

def readRaw (untrustedEnv : Dict Str Str) (source : Str) (key : Option Str) : Option Str :=
  match untrustedEnv.get? (readKey source key) with
  | some raw => some raw
  | none => if key = none then untrustedEnv.get? source else none

def optionRepr : Option Str → Str
  | some s => repr s
  | none => txt "None"

def missingInput (source : Str) (key : Option Str) : Str :=
  txt "no untrusted input registered for " ++ repr source ++ txt " (key=" ++ optionRepr repr key ++
    txt ")"

def evalExpr (untrustedEnv : Dict Str Str) (env : Dict Str (CapValue Obj)) :
    Expr → Except RunError (CapValue Obj)
  | .literal l => .ok (.trusted l.value (txt "plan_literal"))
  | .var name =>
    match env.get? name.text with
    | some v => .ok v
    | none => .error (.interpreter (txt "unbound variable " ++ repr name.text))
  | .read source key =>
    match readRaw untrustedEnv source.text key.text with
    | none => .error (.interpreter (missingInput repr source.text key.text))
    | some raw =>
      if source.text = txt "user" then .ok (.user (.str raw) (txt "user"))
      else .ok (.untrusted (.str raw) source.text)

/-- The entry of a node that produced `value`. -/
def entryFor (i : ℕ) (op : Str) (target note : Option Str) (value : CapValue Obj) :
    Except RunError TraceEntry :=
  (⟨i, op, target, value.level.name, sortedNames value.caps.sources, note⟩ : TraceEntry).make

def wrapResult (result : ToolResult Obj) (args : List (CapValue Obj)) : CapValue Obj :=
  match result with
  | .raw value => .derived value args
  | .tagged value => value

/-- The `Call` node once its arguments are there. -/
def callTool (camel : CamelInterpreter Obj) (i : ℕ) (tool : Str) (resultVar : Option Str)
    (args : List (CapValue Obj)) (s : RunState Obj) : RunState Obj × Except RunError TraceEntry :=
  let policy := camel.toolPolicies.policyFor tool args.length
  match policy.check repr (args.map CapValue.caps) with
  | .error reason =>
    (s, .error (.interpreter (txt "tool " ++ repr tool ++ txt " call denied: " ++ reason)))
  | .ok () =>
    match camel.toolImpls.get? tool with
    | none => (s, .error (.interpreter (txt "no implementation for tool " ++ repr tool)))
    | some impl =>
      let result := wrapResult (impl args) args
      let env := match resultVar with
        | some name => s.env.set name result
        | none => s.env
      let shown := match resultVar with
        | some name => if name = [] then txt "_" else name
        | none => txt "_"
      ({ s with env := env, calls := s.calls ++ [⟨tool, policy, args⟩] },
        entryFor i (txt "Call") (some tool) (some (txt "result_var=" ++ shown)) result)

/-- An input of a `QLLM` node with its text. -/
def qllmInput (camel : CamelInterpreter Obj) (env : Dict Str (CapValue Obj)) (ref : FieldText 64) :
    Except RunError (CapValue Obj × Str) := do
  let v ← evalExpr repr camel.untrustedEnv env (.var ref)
  match inputText tupleText v.value with
  | .ok text => return (v, text)
  | .error e => .error (.python e)

/-- One node, with the value of a `Return`. -/
def step (camel : CamelInterpreter Obj) (i : ℕ) (node : PlanNode) (s : RunState Obj) :
    RunState Obj × Except RunError (Option (CapValue Obj) × TraceEntry) :=
  match node with
  | .assign name expr =>
    match evalExpr repr camel.untrustedEnv s.env expr with
    | .error e => (s, .error e)
    | .ok value =>
      ({ s with env := s.env.set name.text value },
        (entryFor i (txt "Assign") (some name.text) none value).map (none, ·))
  | .call tool args resultVar =>
    match args.mapM (evalExpr repr camel.untrustedEnv s.env) with
    | .error e => (s, .error e)
    | .ok values =>
      let called := callTool repr camel i tool.text resultVar.text values s
      (called.1, called.2.map (none, ·))
  | .qllm query inputs resultVar =>
    match inputs.mapM (qllmInput repr tupleText camel s.env) with
    | .error e => (s, .error e)
    | .ok read =>
      let result := CapValue.derived (.str (camel.qLlm query.text (read.map Prod.snd)))
        (read.map Prod.fst)
      ({ s with env := s.env.set resultVar.text result },
        (entryFor i (txt "QLLM") (some resultVar.text)
          (some (txt "query_len=" ++ natText query.text.length)) result).map (none, ·))
  | .return_ expr =>
    match evalExpr repr camel.untrustedEnv s.env expr with
    | .error e => (s, .error e)
    | .ok value => (s, (entryFor i (txt "Return") none none value).map (some value, ·))

def haltEntry (i : ℕ) (node : PlanNode) (message : Str) : Except RunError TraceEntry :=
  (⟨i, node.typeName, none, CapabilityLevel.untrusted.name, [],
    some (txt "halted: " ++ message)⟩ : TraceEntry).make

def haltValue : CapValue Obj := ⟨.none, .of (.untrusted (txt "camel:halt"))⟩

/-- The loop over the nodes from number `i` on; an error that is no
`CamelInterpreterError` escapes. -/
def runNodes (camel : CamelInterpreter Obj) :
    ℕ → List PlanNode → RunState Obj → RunState Obj × Except RunError Unit
  | _, [], s => (s, .ok ())
  | i, node :: rest, s =>
    match step repr tupleText camel i node s with
    | (s', .ok (value, entry)) =>
      let s' := { s' with finalValue := value, entries := s'.entries ++ [entry] }
      if node.isReturn then (s', .ok ()) else runNodes camel (i + 1) rest s'
    | (s', .error (.interpreter message)) =>
      match haltEntry i node message with
      | .error e => (s', .error e)
      | .ok entry =>
        ({ s' with entries := s'.entries ++ [entry], finalValue := some haltValue, halted := true,
                   haltReason := some message }, .ok ())
    | (s', .error e) => (s', .error e)

def setdefaultPrompt (untrustedEnv : Dict Str Str) (userPrompt : Str) : Dict Str Str :=
  match untrustedEnv.get? (txt "user_prompt") with
  | some _ => untrustedEnv
  | none => untrustedEnv.set (txt "user_prompt") userPrompt

/-- The state that the loop of `run` leaves, with the error that escapes. -/
def CamelInterpreter.execute (camel : CamelInterpreter Obj) (plan : Plan) (userPrompt : Str) :
    RunState Obj × Except RunError Unit :=
  runNodes repr tupleText
    { camel with untrustedEnv := setdefaultPrompt camel.untrustedEnv userPrompt } 0 plan.nodes .start

def CamelInterpreter.run (camel : CamelInterpreter Obj) (plan : Plan) (userPrompt : Str) :
    Except RunError (CapValue Obj × ExecutionTrace) := do
  match plan.validateStructure with
  | .error text => throw (.interpreter (txt "invalid plan: " ++ text))
  | .ok () => do
    let (s, outcome) := camel.execute repr tupleText plan userPrompt
    outcome
    let finalValue := s.finalValue.getD ⟨.none, .empty⟩
    let trace ← (⟨s.entries, finalValue.level.name, sortedNames finalValue.caps.sources, s.halted,
      s.haltReason⟩ : ExecutionTrace).make
    return (finalValue, trace)

end Steps

end TexGovernance.Camel
