import TexGovernance.Safeflow.Wal

/-!
# Transactions and their executor

`safeflow/transaction.py`. A step is checked when it is built; a transaction
changes through `model_copy`, which checks nothing.
-/

namespace TexGovernance.Safeflow
open PyStr PyBytes PyCodec PyRepr Sha256

inductive TransactionState where
  | pending
  | committed
  | rolledBack
  | failed
  deriving DecidableEq

def TransactionState.value : TransactionState → Str
  | pending => txt "PENDING"
  | committed => txt "COMMITTED"
  | rolledBack => txt "ROLLED_BACK"
  | failed => txt "FAILED"

/-- What `TransactionStep(..)` is given. -/
structure StepFields where
  stepId : Str
  tool : Str
  argsHash : Str
  resultHash : Option Str
  inverseOp : Option Str
  startedAtMs : ℕ
  completedAtMs : Option ℕ
  error : Option Str
  deriving DecidableEq

structure StepFields.Valid (f : StepFields) : Prop where
  stepId : RequiredText 64 f.stepId
  tool : RequiredText 128 f.tool
  argsHash : RequiredText 128 f.argsHash
  resultHash : OptionalFits 128 f.resultHash
  inverseOp : OptionalFits 128 f.inverseOp
  error : OptionalFits 1000 f.error

instance (f : StepFields) : Decidable f.Valid :=
  decidable_of_iff (RequiredText 64 f.stepId ∧ RequiredText 128 f.tool ∧ RequiredText 128 f.argsHash ∧
      OptionalFits 128 f.resultHash ∧ OptionalFits 128 f.inverseOp ∧ OptionalFits 1000 f.error)
    ⟨fun ⟨h1, h2, h3, h4, h5, h6⟩ => ⟨h1, h2, h3, h4, h5, h6⟩,
      fun ⟨h1, h2, h3, h4, h5, h6⟩ => ⟨h1, h2, h3, h4, h5, h6⟩⟩

structure TransactionStep extends StepFields where
  valid : toStepFields.Valid

def TransactionStep.make (f : StepFields) : Except PyErr TransactionStep :=
  if h : f.Valid then .ok ⟨f, h⟩ else .error .valueError

/-- `failureReason` is only checked when a transaction is built, and then it is
not there yet. -/
structure Transaction where
  txnId : FieldText 128
  state : TransactionState
  steps : List TransactionStep
  createdAtMs : ℕ
  completedAtMs : Option ℕ
  failureReason : Option Str

namespace Transaction

def new (txnId : FieldText 128) (createdAtMs : ℕ) : Transaction :=
  ⟨txnId, .pending, [], createdAtMs, none, none⟩

def withStep (t : Transaction) (step : TransactionStep) : Transaction :=
  { t with steps := t.steps ++ [step] }

def withState (t : Transaction) (state : TransactionState) (completedAtMs : Option ℕ)
    (failureReason : Option Str) : Transaction :=
  { t with
    state := state
    completedAtMs := completedAtMs.or t.completedAtMs
    failureReason := failureReason.or t.failureReason }

/-- `if text: h.update(text.encode())`. -/
def optionalPart (o : Option Str) : Str := o.getD []

def stepText (s : TransactionStep) : Str :=
  s.stepId ++ s.tool ++ s.argsHash ++ optionalPart s.resultHash ++ optionalPart s.inverseOp

def hash (t : Transaction) : Except PyErr Str := do
  let bytes ← utf8Encode (t.txnId.text ++ t.state.value ++ t.steps.flatMap stepText ++
    optionalPart t.failureReason)
  return hex (sha256 bytes).bytes

end Transaction

end TexGovernance.Safeflow

/-!
## The transactional executor

`TransactionalExecutor` of `safeflow/executor.py`. A method is an action on the
executor: when it raises, what it has changed so far stays changed. Tools and
inverses may have effects of their own on a world, and what they raise is given
by its `str`. The invocations of inverses are recorded.
-/

namespace TexGovernance.Safeflow
open PyStr PyBytes PyCodec PyJson PyRepr PyDict Sha256

inductive ExecError where
  | safeflow (message : Str)
  | python (e : PyErr)
  deriving DecidableEq

/-- What the executor takes from Python: the printable characters, the clock
read by read, how `json.dumps(.., default=str)` sees a value, and its `repr`. -/
structure Platform (Val : Type) where
  isprintable : CodePoint → Bool
  surrogate_unprintable : ∀ c, isSurrogate c = true → isprintable c = false
  nowMs : ℕ → ℕ
  encode : Val → PyObj
  reprVal : Val → Str

def Platform.repr {Val : Type} (p : Platform Val) : Str → Str := PyRepr.repr p.isprintable

abbrev ToolFn (World Val : Type) := World → Dict Str Val → World × Except Str Val

/-- `inverse(tool=.., args=.., result=..)`; no result where nothing was stashed. -/
abbrev InverseFn (World Val : Type) :=
  World → Str → Dict Str Val → Option Val → World × Except Str Unit

structure InverseCall (Val : Type) where
  stepId : Str
  inverseOp : Str
  tool : Str
  args : Dict Str Val
  result : Option Val
  error : Option Str

/-- An entry of `_inverse_args`. -/
structure Stash (Val : Type) where
  tool : Str
  args : Dict Str Val
  result : Val

structure TransactionalExecutor (σ World Val : Type) where
  txn : Transaction
  wal : σ
  inverses : Dict Str (InverseFn World Val)
  tools : Dict Str (ToolFn World Val)
  inverseArgs : Dict Str (Stash Val)
  rollbackFailures : List Str
  world : World
  clockReads : ℕ
  inverseCalls : List (InverseCall Val)

abbrev Exec (σ World Val : Type) (α : Type) :=
  EStateM ExecError (TransactionalExecutor σ World Val) α

structure TransactionOutcome where
  txnId : Str
  state : TransactionState
  transactionHash : Str
  walTerminalHash : Str
  walEntries : ℕ
  rollbackFailures : List Str
  failureReason : Option Str

variable {σ World Val : Type} [WAL σ] (p : Platform Val)

def hexDigest (text : Str) : Except PyErr Str := do
  let bytes ← utf8Encode text
  return hex (sha256 bytes).bytes

def hashArgs (args : Dict Str Val) : Except PyErr Str := do
  let payload ← dumps (.dict (args.items.map fun item => (item.1, p.encode item.2)))
  hexDigest payload

def hashResult (result : Val) : Except PyErr Str :=
  match dumps (p.encode result) with
  | .ok payload => hexDigest payload
  | .error .valueError => hexDigest (p.reprVal result)
  | .error e => .error e

theorem requiredText_hexDigest_ok {text digest : Str} (h : hexDigest text = .ok digest) :
    RequiredText 128 digest := by
  unfold hexDigest at h
  cases hbytes : utf8Encode text with
  | error e =>
    rw [hbytes] at h
    cases h
  | ok bytes =>
    rw [hbytes] at h
    cases h
    exact requiredText_hexDigest bytes

theorem requiredText_hashArgs {args : Dict Str Val} {digest : Str}
    (h : hashArgs p args = .ok digest) : RequiredText 128 digest := by
  unfold hashArgs at h
  cases hpayload : dumps (.dict (args.items.map fun item => (item.1, p.encode item.2))) with
  | error e =>
    rw [hpayload] at h
    cases h
  | ok payload =>
    rw [hpayload] at h
    exact requiredText_hexDigest_ok h

theorem requiredText_hashResult {result : Val} {digest : Str}
    (h : hashResult p result = .ok digest) : RequiredText 128 digest := by
  unfold hashResult at h
  split at h
  · exact requiredText_hexDigest_ok h
  · exact requiredText_hexDigest_ok h
  · cases h

def raises {α : Type} (x : Except PyErr α) : Exec σ World Val α :=
  match x with
  | .ok a => pure a
  | .error e => throw (.python e)

def now : Exec σ World Val ℕ := fun s =>
  .ok (p.nowMs s.clockReads) { s with clockReads := s.clockReads + 1 }

def appendWal (kind : WALEntryKind) (stepId tool argsHash resultHash inverseOp note : Option Str) :
    Exec σ World Val Unit := do
  let s ← get
  let timestampMs ← now p
  let entry ← raises (WALEntry.make
    { sequence := WAL.nextSequence s.wal, txnId := s.txn.txnId.text, kind, stepId, tool, argsHash,
      resultHash, inverseOp, note, timestampMs, prevHash := WAL.lastHash s.wal })
  let wal ← raises (WAL.append s.wal entry)
  modify fun s => { s with wal := wal }

def invokeTool (impl : ToolFn World Val) (args : Dict Str Val) :
    Exec σ World Val (Except Str Val) := fun s =>
  .ok (impl s.world args).2 { s with world := (impl s.world args).1 }

def errorText : Except Str Unit → Option Str
  | .ok _ => none
  | .error text => some text

def invokeInverse (stepId op : Str) (inverse : InverseFn World Val) (tool : Str)
    (args : Dict Str Val) (result : Option Val) : Exec σ World Val (Except Str Unit) := fun s =>
  let returned := inverse s.world tool args result
  .ok returned.2
    { s with
      world := returned.1
      inverseCalls := s.inverseCalls ++ [⟨stepId, op, tool, args, result, errorText returned.2⟩] }

def outcome : Exec σ World Val TransactionOutcome := do
  let s ← get
  let transactionHash ← raises s.txn.hash
  if transactionHash.length = 64 ∧ (WAL.lastHash s.wal).length = 64 ∧
      (∀ text ∈ s.rollbackFailures, Plain text) ∧ OptionalFits 1000 s.txn.failureReason then
    return ⟨s.txn.txnId.text, s.txn.state, transactionHash, WAL.lastHash s.wal,
      WAL.nextSequence s.wal, s.rollbackFailures, s.txn.failureReason⟩
  else throw (.python .valueError)

def noteUndone (step : TransactionStep) (op : Str) (returned : Except Str Unit) :
    Exec σ World Val Unit :=
  match returned with
  | .ok _ =>
    appendWal p .rollbackAfter step.stepId step.tool step.argsHash step.resultHash op
      (txt "rollback ok")
  | .error exc => do
    modify fun s =>
      { s with rollbackFailures := s.rollbackFailures ++
          [txt "inverse " ++ p.repr op ++ txt " for step " ++ step.stepId ++ txt " raised: " ++ exc] }
    appendWal p .rollbackAfter step.stepId step.tool step.argsHash step.resultHash op
      (txt "rollback error: " ++ exc.take 300)

def undoStep (step : TransactionStep) (op : Str) : Exec σ World Val Unit := do
  let s ← get
  match s.inverses.get? op with
  | none => modify fun s =>
      { s with rollbackFailures := s.rollbackFailures ++
          [txt "inverse op " ++ p.repr op ++ txt " disappeared mid-transaction"] }
  | some inverse => do
    appendWal p .rollbackBefore step.stepId step.tool step.argsHash step.resultHash op
      (txt "rolling back step")
    let cached := s.inverseArgs.get? step.stepId
    let returned ← invokeInverse step.stepId op inverse step.tool
      ((cached.map Stash.args).getD Dict.empty) (cached.map Stash.result)
    noteUndone p step op returned

/-- The body of the loop of `_rollback`. -/
def rollbackStep (step : TransactionStep) : Exec σ World Val Unit :=
  match step.inverseOp with
  | none => pure ()
  | some op =>
    match step.error with
    | some _ => pure ()
    | none => undoStep p step op

def rollbackSteps : List TransactionStep → Exec σ World Val Unit
  | [] => pure ()
  | step :: rest => do
    rollbackStep p step
    rollbackSteps rest

def rollback : Exec σ World Val Unit := do
  let s ← get
  rollbackSteps p s.txn.steps.reverse

def begin_ : Exec σ World Val Unit :=
  appendWal p .begin_ none none none none none (txt "transaction begin")

def commit : Exec σ World Val TransactionOutcome := do
  let s ← get
  if s.txn.state ≠ .pending then
    throw (.safeflow (txt "cannot commit: transaction is " ++ s.txn.state.value))
  else do
    let completedAtMs ← now p
    modify fun s => { s with txn := s.txn.withState .committed completedAtMs none }
    appendWal p .commit none none none none none (txt "commit")
    outcome

/-- `abort` of a pending transaction. -/
def abortPending (reason : Str) : Exec σ World Val TransactionOutcome := do
  let completedAtMs ← now p
  modify fun s => { s with txn := s.txn.withState .failed completedAtMs reason }
  appendWal p .abort none none none none none (txt "abort: " ++ reason.take 300)
  rollback p
  modify fun s =>
    if s.rollbackFailures = [] then { s with txn := s.txn.withState .rolledBack none none } else s
  outcome

def abort (reason : Str) : Exec σ World Val TransactionOutcome := do
  let s ← get
  match s.txn.state with
  | .committed => throw (.safeflow (txt "cannot abort a committed transaction"))
  | .rolledBack => outcome
  | .failed => outcome
  | .pending => abortPending p reason

/-- The arguments of `step`. -/
structure StepCall (Val : Type) where
  stepId : Str
  tool : Str
  args : Dict Str Val
  inverseOp : Option Str

/-- The checks of `step`, up to the implementation of the tool. -/
def admission (call : StepCall Val) : Exec σ World Val (ToolFn World Val) := do
  let s ← get
  if s.txn.state ≠ .pending then
    throw (.safeflow (txt "cannot step: transaction is " ++ s.txn.state.value))
  else if ∃ op ∈ call.inverseOp, op ∉ s.inverses.keys then
    throw (.safeflow (txt "inverse op " ++ p.repr (call.inverseOp.getD []) ++
      txt " not registered; tool cannot participate in transaction"))
  else
    match s.tools.get? call.tool with
    | none => throw (.safeflow (txt "no impl registered for tool " ++ p.repr call.tool))
    | some impl => return impl

def raisedReason (call : StepCall Val) (exc : Str) : Str :=
  txt "step " ++ p.repr call.stepId ++ txt " raised: " ++ exc

/-- The branch of `step` for a tool that raises. -/
def stepRaised (call : StepCall Val) (argsHash : Str) (startedAtMs : ℕ) (exc : Str) :
    Exec σ World Val Val := do
  let completedAtMs ← now p
  let step ← raises (TransactionStep.make
    ⟨call.stepId, call.tool, argsHash, none, call.inverseOp, startedAtMs, completedAtMs,
      exc.take 1000⟩)
  modify fun s => { s with txn := s.txn.withStep step }
  appendWal p .stepAfter call.stepId call.tool argsHash none call.inverseOp
    (txt "error: " ++ exc.take 300)
  let _ ← abort p (raisedReason p call exc)
  throw (.safeflow exc)

/-- The branch of `step` for a tool that returns. -/
def stepReturned (call : StepCall Val) (argsHash : Str) (startedAtMs : ℕ) (result : Val) :
    Exec σ World Val Val := do
  let resultHash ← raises (hashResult p result)
  let completedAtMs ← now p
  let step ← raises (TransactionStep.make
    ⟨call.stepId, call.tool, argsHash, resultHash, call.inverseOp, startedAtMs, completedAtMs, none⟩)
  modify fun s =>
    { s with
      txn := s.txn.withStep step
      inverseArgs := match call.inverseOp with
        | some _ => s.inverseArgs.set call.stepId ⟨call.tool, call.args, result⟩
        | none => s.inverseArgs }
  appendWal p .stepAfter call.stepId call.tool argsHash resultHash call.inverseOp none
  return result

def step (call : StepCall Val) : Exec σ World Val Val := do
  let impl ← admission p call
  let argsHash ← raises (hashArgs p call.args)
  let startedAtMs ← now p
  appendWal p .stepBefore call.stepId call.tool argsHash none call.inverseOp none
  let returned ← invokeTool impl call.args
  match returned with
  | .error exc => stepRaised p call argsHash startedAtMs exc
  | .ok result => stepReturned p call argsHash startedAtMs result

/-- `TransactionalExecutor(txn_id=.., wal=.., inverses=.., tools=..)`. -/
def TransactionalExecutor.make (txnId : Str) (wal : σ) (inverses : Dict Str (InverseFn World Val))
    (tools : Dict Str (ToolFn World Val)) (world : World) :
    Except ExecError (TransactionalExecutor σ World Val) :=
  if txnId = [] then .error (.safeflow (txt "txn_id is required"))
  else if h : txnId ≠ [] ∧ fitsField 128 txnId then
    .ok ⟨.new ⟨txnId, h.1, h.2⟩ (p.nowMs 0), wal, inverses, tools, Dict.empty, [], world, 1, []⟩
  else .error (.python .valueError)

end TexGovernance.Safeflow
