import TexGovernance.Contracts.Atoms
import TexGovernance.Lib.PyDict

/-!
# The contract enforcer (`contracts/contract.py`, `contracts/runtime_enforcement.py`)

Contracts, their parsed formulas and the check that an enforcer runs before and after an event.
A check that raises keeps what it has done so far, so every operation returns its result
together with the new state.
-/

namespace TexGovernance.Contracts
open PyStr PyDict

inductive ViolationSeverity where
  | block
  | sanction
  | warn
  deriving DecidableEq, Repr

inductive ViolatedClause where
  | precondition
  | hardInvariant
  | softInvariant
  | hardGovernance
  | softGovernance
  | postcondition
  deriving DecidableEq, Repr

def ViolatedClause.isSoft : ViolatedClause → Bool
  | .softInvariant => true
  | .softGovernance => true
  | _ => false

/-- `BehavioralContract`, without the parameters that only scores read. -/
structure BehavioralContract where
  contractId : Str
  agentId : Str
  preconditionLtl : Str
  postconditionLtl : Str
  invariantsLtl : List Str
  softInvariantsLtl : List Str
  hardGovernanceLtl : List Str
  softGovernanceLtl : List Str
  coveredEventKinds : List Str
  severityOnViolation : ViolationSeverity
  recoveryWindowK : ℕ
  coveredEventKinds_ne : coveredEventKinds ≠ []

structure ParsedFormulas where
  precondition : Option Node
  postcondition : Option Node
  hardInvariants : List Node
  softInvariants : List Node
  hardGovernance : List Node
  softGovernance : List Node
  deriving DecidableEq

def BehavioralContract.parsedFormulas (c : BehavioralContract) :
    Except ParseError ParsedFormulas := do
  let precondition ←
    if strip c.preconditionLtl = [] then .ok none else (parse c.preconditionLtl).map some
  let postcondition ←
    if strip c.postconditionLtl = [] ∨ strip c.postconditionLtl = txt "true" then .ok none
    else (parse c.postconditionLtl).map some
  let hardInvariants ← c.invariantsLtl.mapM parse
  let softInvariants ← c.softInvariantsLtl.mapM parse
  let hardGovernance ← c.hardGovernanceLtl.mapM parse
  let softGovernance ← c.softGovernanceLtl.mapM parse
  .ok { precondition, postcondition, hardInvariants, softInvariants, hardGovernance,
        softGovernance }

def BehavioralContract.appliesTo (c : BehavioralContract) (agentId eventKind : Str) : Bool :=
  if c.agentId ≠ txt "*" ∧ c.agentId ≠ agentId then false
  else if txt "*" ∈ c.coveredEventKinds then true
  else eventKind ∈ c.coveredEventKinds

def BehavioralContract.totalConstraintCount (c : BehavioralContract) : ℕ :=
  c.invariantsLtl.length + c.softInvariantsLtl.length + c.hardGovernanceLtl.length +
    c.softGovernanceLtl.length

structure ContractEnforcer where
  contracts : List BehavioralContract
  parsed : List ParsedFormulas
  contracts_ne : contracts ≠ []
  ids_nodup : (contracts.map (·.contractId)).Nodup
  parsed_eq : contracts.mapM (·.parsedFormulas) = .ok parsed

def ContractEnforcer.make (contracts : List BehavioralContract) : Except PyErr ContractEnforcer :=
  if hne : contracts = [] then .error .valueError
  else if hnodup : (contracts.map (·.contractId)).Nodup then
    match hparsed : contracts.mapM (·.parsedFormulas) with
    | .error _ => .error .valueError
    | .ok parsed => .ok ⟨contracts, parsed, hne, hnodup, hparsed⟩
  else .error .valueError

inductive Phase where
  | pre
  | post
  deriving DecidableEq

structure Clause where
  kind : ViolatedClause
  index : ℕ
  formula : Node
  ltl : Str

def indexedClauses (kind : ViolatedClause) : ℕ → List Node → List Str → List Clause
  | idx, f :: fs, ltl :: ltls => ⟨kind, idx, f, ltl⟩ :: indexedClauses kind (idx + 1) fs ltls
  | _, _, _ => []

def clauses (phase : Phase) (c : BehavioralContract) (p : ParsedFormulas) : List Clause :=
  (match phase with
    | .pre => p.precondition.toList.map fun f => ⟨.precondition, 0, f, c.preconditionLtl⟩
    | .post => p.postcondition.toList.map fun f => ⟨.postcondition, 0, f, c.postconditionLtl⟩) ++
  indexedClauses .hardInvariant 0 p.hardInvariants c.invariantsLtl ++
  indexedClauses .hardGovernance 0 p.hardGovernance c.hardGovernanceLtl ++
  indexedClauses .softInvariant 0 p.softInvariants c.softInvariantsLtl ++
  indexedClauses .softGovernance 0 p.softGovernance c.softGovernanceLtl

structure Key where
  agentId : Str
  contractId : Str
  kind : ViolatedClause
  index : ℕ
  deriving DecidableEq

structure SoftRecoveryEntry where
  triggeringEventId : Str
  startedAtStep : ℕ
  deadlineStep : ℕ
  clauseLtl : Str
  violatedClause : ViolatedClause
  contractId : Str
  agentId : Str
  deriving DecidableEq

/-- `ContractViolation`, without the random id and the wall-clock time. -/
structure ContractViolation where
  contractId : Str
  agentId : Str
  violatedClause : ViolatedClause
  clauseLtl : Str
  triggeringEventId : Str
  stepIndex : ℕ
  severity : ViolationSeverity
  complianceGap : ℚ
  recoveryDeadlineStep : Option ℕ
  recoveredAtStep : Option ℕ
  ledgerEventId : Option Str
  deriving DecidableEq

structure EnforcerState where
  stepIndex : ℕ
  softPending : Dict Key SoftRecoveryEntry
  violations : List ContractViolation
  cHardHistory : List ℚ
  cSoftHistory : List ℚ

def initialState : EnforcerState := ⟨0, Dict.empty, [], [], []⟩

/-- One call of `check_pre` or `check_post`. The ledger is `none` when the
enforcer has none, otherwise its answer to each record of this call. The
recent window is handed to the context, where no resolver reads it. -/
structure Check where
  phase : Phase
  agentId : Str
  event : ProposedEvent
  state : EcosystemState
  ledger : Option (ContractViolation → Except PyErr Str)

def Check.context (check : Check) : ContractContext := ⟨check.event, check.state⟩

def eventIdOrSynth (event : ProposedEvent) : Str :=
  txt "proposed:" ++ event.actorEntityId ++ txt ":" ++ event.eventKind ++ txt ":" ++
    event.proposedAt

def keyOf (agentId : Str) (c : BehavioralContract) (clause : Clause) : Option Key :=
  if clause.kind.isSoft then some ⟨agentId, c.contractId, clause.kind, clause.index⟩ else none

/-- The record `_record` builds. -/
def newViolation (check : Check) (c : BehavioralContract) (clauseLtl : Str)
    (violatedClause : ViolatedClause) (isSoft : Bool) (step : ℕ)
    (recoveryDeadlineStep : Option ℕ) (severityOverride : Option ViolationSeverity)
    (triggeringEventIdOverride : Option Str) : ContractViolation where
  contractId := c.contractId
  agentId := c.agentId
  violatedClause := violatedClause
  clauseLtl := clauseLtl
  triggeringEventId := triggeringEventIdOverride.getD (eventIdOrSynth check.event)
  stepIndex := step
  severity := severityOverride.getD (if isSoft then .warn else c.severityOnViolation)
  complianceGap := 1 / max 1 (c.totalConstraintCount : ℚ)
  recoveryDeadlineStep := recoveryDeadlineStep
  recoveredAtStep := none
  ledgerEventId := none

/-- The rest of `_record`: the ledger first, then the list of violations. -/
def commitViolation (check : Check) (violation : ContractViolation) (s : EnforcerState) :
    Except PyErr Unit × EnforcerState :=
  match check.ledger with
  | none => (.ok (), { s with violations := s.violations ++ [violation] })
  | some append =>
    match append violation with
    | .error e => (.error e, s)
    | .ok eventId =>
      (.ok (), { s with
        violations := s.violations ++ [{ violation with ledgerEventId := some eventId }] })

def handleSoftViolation (check : Check) (c : BehavioralContract) (clause : Clause) (step : ℕ)
    (s : EnforcerState) : Except PyErr Unit × EnforcerState :=
  let key : Key := ⟨check.agentId, c.contractId, clause.kind, clause.index⟩
  if (s.softPending.get? key).isSome then (.ok (), s)
  else
    let deadline := step + c.recoveryWindowK
    let entry : SoftRecoveryEntry :=
      { triggeringEventId := eventIdOrSynth check.event
        startedAtStep := step
        deadlineStep := deadline
        clauseLtl := clause.ltl
        violatedClause := clause.kind
        contractId := c.contractId
        agentId := check.agentId }
    commitViolation check
      (newViolation check c clause.ltl clause.kind true step (some deadline) none none)
      { s with softPending := s.softPending.set key entry }

def isOpenRecord (entry : SoftRecoveryEntry) (v : ContractViolation) : Bool :=
  v.contractId = entry.contractId && v.agentId = entry.agentId &&
    v.violatedClause = entry.violatedClause && v.recoveredAtStep.isNone &&
    v.recoveryDeadlineStep.isSome

def markFirst (entry : SoftRecoveryEntry) (recoveredAtStep : ℕ) :
    List ContractViolation → List ContractViolation
  | [] => []
  | v :: rest =>
    if isOpenRecord entry v then { v with recoveredAtStep := some recoveredAtStep } :: rest
    else v :: markFirst entry recoveredAtStep rest

def dischargeRecovery (key : Key) (recoveredAtStep : ℕ) (s : EnforcerState) : EnforcerState :=
  match s.softPending.get? key with
  | none => s
  | some entry =>
    -- a late recovery is left for the sweep
    if entry.deadlineStep < recoveredAtStep then s
    else { s with
      softPending := s.softPending.pop key
      violations := (markFirst entry recoveredAtStep s.violations.reverse).reverse }

def expiredKeys (step : ℕ) (s : EnforcerState) : List Key :=
  (s.softPending.items.filter fun e => e.2.deadlineStep < step).map Prod.fst

def escalationRecord (check : Check) (c : BehavioralContract) (entry : SoftRecoveryEntry)
    (step : ℕ) : ContractViolation :=
  newViolation check c entry.clauseLtl entry.violatedClause false step (some entry.deadlineStep)
    (some .block) (some entry.triggeringEventId)

/-- The second loop of `_sweep_expired_recoveries`, over the keys found
expired. -/
def sweepKeys (contracts : List BehavioralContract) (check : Check) (step : ℕ) :
    List Key → EnforcerState → Except PyErr Unit × EnforcerState
  | [], s => (.ok (), s)
  | key :: rest, s =>
    match s.softPending.get? key with
    | none => (.error .other, s)
    | some entry =>
      let s := { s with softPending := s.softPending.pop key }
      match contracts.find? fun c => c.contractId = entry.contractId with
      | none => sweepKeys contracts check step rest s
      | some c =>
        match commitViolation check (escalationRecord check c entry step) s with
        | (.error e, s) => (.error e, s)
        | (.ok (), s) => sweepKeys contracts check step rest s

/-- The local counters of `_check`. -/
structure Tally where
  hardTotal : ℕ
  hardSatisfied : ℕ
  softTotal : ℕ
  softSatisfied : ℕ
  anyHardViolated : Bool
  contractHadViolation : Bool
  violatedContractIds : List Str

def Tally.zero : Tally := ⟨0, 0, 0, 0, false, false, []⟩

def Tally.count (tally : Tally) (kind : ViolatedClause) (value : Bool) : Tally :=
  let tally := match kind with
    | .precondition => tally
    | .postcondition => tally
    | .softInvariant | .softGovernance => { tally with
        softTotal := tally.softTotal + 1
        softSatisfied := tally.softSatisfied + value.toNat }
    | .hardInvariant | .hardGovernance => { tally with
        hardTotal := tally.hardTotal + 1
        hardSatisfied := tally.hardSatisfied + value.toNat }
  if value then tally
  else { tally with
    anyHardViolated := tally.anyHardViolated || !kind.isSoft
    contractHadViolation := true }

def Tally.closeContract (tally : Tally) (contractId : Str) : Tally :=
  { tally with
    contractHadViolation := false
    violatedContractIds := if tally.contractHadViolation
      then tally.violatedContractIds ++ [contractId] else tally.violatedContractIds }

def ratio (satisfied total : ℕ) : ℚ := if total = 0 then 1 else satisfied / total

section Checks

variable (compare : PyVal → Op → Option Str → Except PyErr Bool)

def applyClause (check : Check) (c : BehavioralContract) (clause : Clause) (step : ℕ)
    (value : Bool) (s : EnforcerState) : Except PyErr Unit × EnforcerState :=
  match clause.kind.isSoft, value with
  | true, true =>
    (.ok (), dischargeRecovery ⟨check.agentId, c.contractId, clause.kind, clause.index⟩ step s)
  | true, false => handleSoftViolation check c clause step s
  | false, true => (.ok (), s)
  | false, false =>
    commitViolation check (newViolation check c clause.ltl clause.kind false step none none none) s

def stepClause (check : Check) (c : BehavioralContract) (clause : Clause) (step : ℕ)
    (s : EnforcerState) : Except PyErr Bool × EnforcerState :=
  match evaluateFinite compare check.context clause.formula with
  | .error e => (.error e, s)
  | .ok value =>
    match applyClause check c clause step value s with
    | (.error e, s) => (.error e, s)
    | (.ok (), s) => (.ok value, s)

def processClauses (check : Check) (c : BehavioralContract) (step : ℕ) :
    List Clause → Tally → EnforcerState → Except PyErr Tally × EnforcerState
  | [], tally, s => (.ok tally, s)
  | clause :: rest, tally, s =>
    match stepClause compare check c clause step s with
    | (.error e, s) => (.error e, s)
    | (.ok value, s) => processClauses check c step rest (tally.count clause.kind value) s

def processContracts (check : Check) (step : ℕ) :
    List (BehavioralContract × ParsedFormulas) → Tally → EnforcerState →
    Except PyErr Tally × EnforcerState
  | [], tally, s => (.ok tally, s)
  | (c, p) :: rest, tally, s =>
    match processClauses compare check c step (clauses check.phase c p) tally s with
    | (.error e, s) => (.error e, s)
    | (.ok tally, s) => processContracts check step rest (tally.closeContract c.contractId) s

def ContractEnforcer.active (enf : ContractEnforcer) (check : Check) :
    List (BehavioralContract × ParsedFormulas) :=
  (enf.contracts.zip enf.parsed).filter fun cp =>
    cp.1.appliesTo check.agentId check.event.eventKind

/-- `_check`, which `check_pre` and `check_post` call with their phase. -/
def ContractEnforcer.check (enf : ContractEnforcer) (check : Check) (s : EnforcerState) :
    Except PyErr (Bool × List Str) × EnforcerState :=
  let step := s.stepIndex + 1
  match processContracts compare check step (enf.active check) Tally.zero
      { s with stepIndex := step } with
  | (.error e, s) => (.error e, s)
  | (.ok tally, s) =>
    let s := { s with
      cHardHistory := s.cHardHistory ++ [ratio tally.hardSatisfied tally.hardTotal]
      cSoftHistory := s.cSoftHistory ++ [ratio tally.softSatisfied tally.softTotal] }
    match sweepKeys enf.contracts check step (expiredKeys step s) s with
    | (.error e, s) => (.error e, s)
    | (.ok (), s) => (.ok (!tally.anyHardViolated, tally.violatedContractIds), s)

def ContractEnforcer.runChecks (enf : ContractEnforcer) (checks : List Check) (s : EnforcerState) :
    EnforcerState :=
  checks.foldl (fun s check => (enf.check compare check s).2) s

end Checks

end TexGovernance.Contracts
