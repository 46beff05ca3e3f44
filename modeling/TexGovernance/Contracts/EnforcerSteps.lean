import TexGovernance.Contracts.Enforcement
import TexGovernance.Lib.Traces

/-!
# What one check does to the obligations

A check is one walk over its agenda, the clauses of the active contracts in order, followed by
the sweep.
-/

namespace TexGovernance.Contracts
open PyStr PyDict

variable (compare : PyVal → Op → Option Str → Except PyErr Bool)

def LedgerAccepts (check : Check) : Prop :=
  ∀ append, check.ledger = some append → ∀ v, ∃ eventId, append v = .ok eventId

def recorded (check : Check) (v : ContractViolation) : ContractViolation :=
  match check.ledger with
  | none => v
  | some append =>
    match append v with
    | .ok eventId => { v with ledgerEventId := some eventId }
    | .error _ => v

theorem commitViolation_returns {check : Check} (h : LedgerAccepts check) (v : ContractViolation)
    (s : EnforcerState) : (commitViolation check v s).1 = .ok () := by
  unfold commitViolation
  cases hledger : check.ledger with
  | none => rfl
  | some append =>
    obtain ⟨eventId, hid⟩ := h append hledger v
    simp only [hid]

variable {s : EnforcerState}

theorem commitViolation_state {check : Check} {v : ContractViolation}
    (h : (commitViolation check v s).1 = .ok ()) :
    (commitViolation check v s).2 =
      { s with violations := s.violations ++ [recorded check v] } := by
  unfold commitViolation recorded at *
  cases hledger : check.ledger with
  | none => rfl
  | some append =>
    rw [hledger] at h
    simp only at h ⊢
    cases hid : append v with
    | error e =>
      rw [hid] at h
      cases h
    | ok eventId => rfl

theorem commitViolation_softPending (check : Check) (v : ContractViolation) (s : EnforcerState) :
    (commitViolation check v s).2.softPending = s.softPending := by
  unfold commitViolation
  split
  · rfl
  · split
    · rfl
    · rfl

theorem commitViolation_stepIndex (check : Check) (v : ContractViolation) (s : EnforcerState) :
    (commitViolation check v s).2.stepIndex = s.stepIndex := by
  unfold commitViolation
  split
  · rfl
  · split
    · rfl
    · rfl

theorem recorded_fields (check : Check) (v : ContractViolation) :
    (recorded check v).contractId = v.contractId ∧
      (recorded check v).violatedClause = v.violatedClause ∧
      (recorded check v).severity = v.severity ∧ (recorded check v).stepIndex = v.stepIndex ∧
      (recorded check v).recoveryDeadlineStep = v.recoveryDeadlineStep := by
  unfold recorded
  cases check.ledger with
  | none => exact ⟨rfl, rfl, rfl, rfl, rfl⟩
  | some append =>
    simp only
    cases append v with
    | error e => exact ⟨rfl, rfl, rfl, rfl, rfl⟩
    | ok eventId => exact ⟨rfl, rfl, rfl, rfl, rfl⟩

def agenda (enf : ContractEnforcer) (check : Check) : List (BehavioralContract × Clause) :=
  (enf.active check).flatMap fun cp => (clauses check.phase cp.1 cp.2).map fun cl => (cp.1, cl)

theorem mem_agenda (enf : ContractEnforcer) (check : Check) {x : BehavioralContract × Clause}
    (h : x ∈ agenda enf check) : x.1 ∈ enf.contracts := by
  obtain ⟨cp, hcp, hx⟩ := List.mem_flatMap.mp h
  obtain ⟨cl, -, rfl⟩ := List.mem_map.mp hx
  exact (List.of_mem_zip (List.mem_of_mem_filter hcp)).1

def processAgenda (check : Check) (step : ℕ) :
    List (BehavioralContract × Clause) → EnforcerState → Except PyErr Unit × EnforcerState
  | [], s => (.ok (), s)
  | (c, clause) :: rest, s =>
    match stepClause compare check c clause step s with
    | (.error e, s) => (.error e, s)
    | (.ok _, s) => processAgenda check step rest s

def forget {α : Type} (r : Except PyErr α × EnforcerState) : Except PyErr Unit × EnforcerState :=
  (r.1.map fun _ => (), r.2)

theorem forget_ok {α : Type} {r : Except PyErr α × EnforcerState}
    (h : forget r = (.ok (), s)) : (∃ a, r.1 = .ok a) ∧ r.2 = s := by
  obtain ⟨result, s'⟩ := r
  have hstate : s' = s := (Prod.mk.inj h).2
  cases result with
  | error e => cases (Prod.mk.inj h).1
  | ok a => exact ⟨⟨a, rfl⟩, hstate⟩

theorem forget_processClauses (check : Check) (c : BehavioralContract) (step : ℕ)
    (cls : List Clause) (rest : List (BehavioralContract × Clause)) (tally : Tally)
    (s : EnforcerState) :
    processAgenda compare check step (cls.map (fun cl => (c, cl)) ++ rest) s =
      match processClauses compare check c step cls tally s with
      | (.error e, s) => (.error e, s)
      | (.ok _, s) => processAgenda compare check step rest s := by
  induction cls generalizing tally s with
  | nil => rfl
  | cons clause cls ih =>
    simp only [List.map_cons, List.cons_append, processAgenda, processClauses]
    match stepClause compare check c clause step s with
    | (.error e, s') => rfl
    | (.ok value, s') => exact ih (tally.count clause.kind value) s'

theorem forget_processContracts (check : Check) (step : ℕ)
    (active : List (BehavioralContract × ParsedFormulas)) (tally : Tally) (s : EnforcerState) :
    forget (processContracts compare check step active tally s) =
      processAgenda compare check step
        (active.flatMap fun cp => (clauses check.phase cp.1 cp.2).map fun cl => (cp.1, cl)) s := by
  induction active generalizing tally s with
  | nil => rfl
  | cons cp active ih =>
    obtain ⟨c, p⟩ := cp
    rw [List.flatMap_cons,
      forget_processClauses compare check c step (clauses check.phase c p) _ tally s]
    simp only [processContracts]
    cases processClauses compare check c step (clauses check.phase c p) tally s with
    | mk result s' =>
      cases result with
      | error e => rfl
      | ok tally' => exact ih (tally'.closeContract c.contractId) s'

section CheckSpec

variable (enf : ContractEnforcer) (check : Check) (s : EnforcerState)

def afterAgenda : EnforcerState :=
  (processAgenda compare check (s.stepIndex + 1) (agenda enf check)
    { s with stepIndex := s.stepIndex + 1 }).2

def agendaReturns : Prop :=
  (processAgenda compare check (s.stepIndex + 1) (agenda enf check)
    { s with stepIndex := s.stepIndex + 1 }).1 = .ok ()

theorem processAgenda_agenda :
    processAgenda compare check (s.stepIndex + 1) (agenda enf check) { s with stepIndex := s.stepIndex + 1 } =
      forget (processContracts compare check (s.stepIndex + 1) (enf.active check) Tally.zero
        { s with stepIndex := s.stepIndex + 1 }) :=
  (forget_processContracts ..).symm

theorem check_of_agenda_error (h : ¬ agendaReturns compare enf check s) :
    (∃ e, (enf.check compare check s).1 = .error e) ∧
      (enf.check compare check s).2 = afterAgenda compare enf check s := by
  unfold agendaReturns at h
  unfold afterAgenda
  rw [processAgenda_agenda] at h ⊢
  unfold ContractEnforcer.check
  simp only
  match hresult : processContracts compare check (s.stepIndex + 1) (enf.active check) Tally.zero
      { s with stepIndex := s.stepIndex + 1 } with
  | (.error e, s') => exact ⟨⟨e, rfl⟩, rfl⟩
  | (.ok tally, s') =>
    rw [hresult] at h
    exact absurd rfl h

theorem check_of_agenda_ok (h : agendaReturns compare enf check s) :
    ∃ cHard cSoft, forget (enf.check compare check s) =
      sweepKeys enf.contracts check (s.stepIndex + 1)
        (expiredKeys (s.stepIndex + 1) (afterAgenda compare enf check s))
        { afterAgenda compare enf check s with cHardHistory := cHard, cSoftHistory := cSoft } := by
  unfold agendaReturns at h
  unfold afterAgenda
  rw [processAgenda_agenda] at h ⊢
  unfold ContractEnforcer.check
  simp only
  match hresult : processContracts compare check (s.stepIndex + 1) (enf.active check) Tally.zero
      { s with stepIndex := s.stepIndex + 1 } with
  | (.error e, s') =>
    rw [hresult] at h
    cases h
  | (.ok tally, s') =>
    refine ⟨s'.cHardHistory ++ [ratio tally.hardSatisfied tally.hardTotal],
      s'.cSoftHistory ++ [ratio tally.softSatisfied tally.softTotal], ?_⟩
    simp only [forget]
    match sweepKeys enf.contracts check (s.stepIndex + 1)
        (expiredKeys (s.stepIndex + 1)
          { s' with
            cHardHistory := s'.cHardHistory ++ [ratio tally.hardSatisfied tally.hardTotal]
            cSoftHistory := s'.cSoftHistory ++ [ratio tally.softSatisfied tally.softTotal] })
        { s' with
          cHardHistory := s'.cHardHistory ++ [ratio tally.hardSatisfied tally.hardTotal]
          cSoftHistory := s'.cSoftHistory ++ [ratio tally.softSatisfied tally.softTotal] } with
    | (.error e, s'') => rfl
    | (.ok (), s'') => rfl

end CheckSpec

def token (s : EnforcerState) (key : Key) : Option Obligation.Token :=
  (s.softPending.get? key).map fun e => ⟨e.startedAtStep, e.deadlineStep⟩

theorem token_eq_none_iff (s : EnforcerState) (key : Key) :
    token s key = none ↔ s.softPending.get? key = none := by
  unfold token
  exact Option.map_eq_none_iff

section OneClause

variable {check : Check} {c : BehavioralContract} {clause : Clause} {step : ℕ} {value : Bool}
variable {s : EnforcerState}

theorem applyClause_returns (h : LedgerAccepts check) :
    (applyClause check c clause step value s).1 = .ok () := by
  unfold applyClause
  split
  · rfl
  · unfold handleSoftViolation
    simp only
    split
    · rfl
    · exact commitViolation_returns h _ _
  · rfl
  · exact commitViolation_returns h _ _

theorem dischargeRecovery_token (key key' : Key) :
    token (dischargeRecovery key step s) key' =
      if key = key' then Obligation.evaluate 0 step (some true) (token s key') else token s key' := by
  unfold dischargeRecovery
  cases hget : s.softPending.get? key with
  | none =>
    by_cases hkey : key = key'
    · rw [if_pos hkey, ← hkey, (token_eq_none_iff s key).mpr hget]
      rfl
    · rw [if_neg hkey]
  | some entry =>
    simp only
    by_cases hkey : key = key'
    · subst hkey
      have htoken : token s key = some ⟨entry.startedAtStep, entry.deadlineStep⟩ := by
        unfold token
        rw [hget]
        rfl
      rw [if_pos rfl, htoken]
      by_cases hlate : entry.deadlineStep < step
      · rw [if_pos hlate]
        exact htoken.trans (if_neg (not_le.mpr hlate)).symm
      · rw [if_neg hlate]
        have hclosed : token { s with
            softPending := s.softPending.pop key
            violations := (markFirst entry step s.violations.reverse).reverse } key = none := by
          simp [token]
        exact hclosed.trans (if_pos (not_lt.mp hlate)).symm
    · rw [if_neg hkey]
      split
      · rfl
      · simp [token, Ne.symm hkey]

theorem applyClause_token (h : (applyClause check c clause step value s).1 = .ok ()) (key : Key) :
    token (applyClause check c clause step value s).2 key =
      if keyOf check.agentId c clause = some key then
        Obligation.evaluate c.recoveryWindowK step (some value) (token s key)
      else token s key := by
  unfold applyClause keyOf at *
  cases hsoft : clause.kind.isSoft with
  | false =>
    rw [hsoft] at h
    cases value with
    | true => rfl
    | false =>
      simp only at h ⊢
      rw [commitViolation_state h]
      rfl
  | true =>
    rw [hsoft] at h
    simp only [if_true, Option.some.injEq]
    cases value with
    | true =>
      rw [dischargeRecovery_token]
      congr 1
      -- the window plays no part when the condition is true
      cases token s key with
      | none => rfl
      | some tok => rfl
    | false =>
      simp only [handleSoftViolation] at h ⊢
      cases hget : s.softPending.get? ⟨check.agentId, c.contractId, clause.kind, clause.index⟩ with
      | some entry =>
        simp only [Option.isSome_some, if_true]
        split
        · rename_i hkey
          rw [← hkey]
          unfold token
          rw [hget]
          rfl
        · rfl
      | none =>
        rw [hget] at h
        simp only [Option.isSome_none, Bool.false_eq_true, if_false] at h ⊢
        rw [commitViolation_state h]
        split
        · rename_i hkey
          rw [← hkey, (token_eq_none_iff s _).mpr hget]
          simp [token, Obligation.evaluate]
        · rename_i hkey
          simp [token, Ne.symm hkey]

theorem dischargeRecovery_stepIndex (key : Key) :
    (dischargeRecovery key step s).stepIndex = s.stepIndex := by
  unfold dischargeRecovery
  split
  · rfl
  · split
    · rfl
    · rfl

theorem applyClause_stepIndex :
    (applyClause check c clause step value s).2.stepIndex = s.stepIndex := by
  unfold applyClause
  split
  · exact dischargeRecovery_stepIndex _
  · unfold handleSoftViolation
    simp only
    split
    · rfl
    · rw [commitViolation_stepIndex]
  · rfl
  · rw [commitViolation_stepIndex]

structure Mark where
  violatedClause : ViolatedClause
  stepIndex : ℕ
  severity : ViolationSeverity
  recoveryDeadlineStep : Option ℕ

def ContractViolation.mark (v : ContractViolation) : Mark :=
  ⟨v.violatedClause, v.stepIndex, v.severity, v.recoveryDeadlineStep⟩

def trail (s : EnforcerState) : List Mark := s.violations.map (·.mark)

theorem recorded_mark (check : Check) (v : ContractViolation) : (recorded check v).mark = v.mark := by
  obtain ⟨-, hclause, hseverity, hstep, hdeadline⟩ := recorded_fields check v
  unfold ContractViolation.mark
  rw [hclause, hseverity, hstep, hdeadline]

theorem markFirst_mark (entry : SoftRecoveryEntry) (t : ℕ) (vs : List ContractViolation) :
    (markFirst entry t vs).map (·.mark) = vs.map (·.mark) := by
  induction vs with
  | nil => rfl
  | cons v rest ih =>
    unfold markFirst
    split
    · rfl
    · rw [List.map_cons, List.map_cons, ih]

theorem dischargeRecovery_trail (key : Key) : trail (dischargeRecovery key step s) = trail s := by
  unfold dischargeRecovery
  split
  · rfl
  · split
    · rfl
    · unfold trail
      rw [List.map_reverse, markFirst_mark, ← List.map_reverse, List.reverse_reverse]

theorem applyClause_trail (h : (applyClause check c clause step value s).1 = .ok ()) :
    trail (applyClause check c clause step value s).2 = trail s ∨
      ∃ m, trail (applyClause check c clause step value s).2 = trail s ++ [m] ∧
        m.violatedClause = clause.kind ∧ m.stepIndex = step ∧
        (m.recoveryDeadlineStep = none ∨ m.severity = .warn) := by
  unfold applyClause at *
  split at h
  · exact .inl (dischargeRecovery_trail _)
  · unfold handleSoftViolation at *
    simp only at *
    split at h
    · rename_i hpending
      rw [if_pos hpending]
      exact .inl rfl
    · rename_i hpending
      rw [if_neg hpending, commitViolation_state h]
      refine .inr ⟨(newViolation check c clause.ltl clause.kind true step
        (some (step + c.recoveryWindowK)) none none).mark, ?_, rfl, rfl, .inr rfl⟩
      unfold trail
      rw [List.map_append, List.map_singleton, recorded_mark]
  · exact .inl rfl
  · rw [commitViolation_state h]
    refine .inr ⟨(newViolation check c clause.ltl clause.kind false step none none none).mark, ?_,
      rfl, rfl, .inl rfl⟩
    unfold trail
    rw [List.map_append, List.map_singleton, recorded_mark]

theorem applyClause_records (h : (applyClause check c clause step false s).1 = .ok ())
    (hsoft : clause.kind.isSoft = true)
    (hfree : token s ⟨check.agentId, c.contractId, clause.kind, clause.index⟩ = none) :
    ∃ m, trail (applyClause check c clause step false s).2 = trail s ++ [m] ∧
      m.violatedClause = clause.kind := by
  have hget := (token_eq_none_iff s _).mp hfree
  unfold applyClause handleSoftViolation at *
  rw [hsoft] at h ⊢
  simp only [hget, Option.isSome_none, Bool.false_eq_true, if_false] at h ⊢
  rw [commitViolation_state h]
  refine ⟨(newViolation check c clause.ltl clause.kind true step
    (some (step + c.recoveryWindowK)) none none).mark, ?_, rfl⟩
  unfold trail
  rw [List.map_append, List.map_singleton, recorded_mark]

end OneClause

/-- A pending entry belongs to its key and to a contract of the enforcer, and
was registered at a step up to `step`. -/
structure EntryOk (contracts : List BehavioralContract) (step : ℕ) (key : Key)
    (entry : SoftRecoveryEntry) : Prop where
  violatedClause_eq : entry.violatedClause = key.kind
  contractId_eq : entry.contractId = key.contractId
  isSoft : key.kind.isSoft = true
  known : ∃ c ∈ contracts, c.contractId = key.contractId ∧
    entry.deadlineStep = entry.startedAtStep + c.recoveryWindowK
  started_le : entry.startedAtStep ≤ step

def PendingOk (contracts : List BehavioralContract) (s : EnforcerState) : Prop :=
  ∀ key entry, s.softPending.get? key = some entry → EntryOk contracts s.stepIndex key entry

variable {contracts : List BehavioralContract}

theorem PendingOk.mono {s s' : EnforcerState} (h : PendingOk contracts s)
    (hget : ∀ key entry, s'.softPending.get? key = some entry →
      s.softPending.get? key = some entry)
    (hstep : s.stepIndex ≤ s'.stepIndex) : PendingOk contracts s' := by
  intro key entry hentry
  have hok := h key entry (hget key entry hentry)
  exact ⟨hok.violatedClause_eq, hok.contractId_eq, hok.isSoft, hok.known,
    hok.started_le.trans hstep⟩

theorem PendingOk.pop {s s' : EnforcerState} {key : Key}
    (h : PendingOk contracts s) (hs' : s'.softPending = s.softPending.pop key)
    (hstep : s'.stepIndex = s.stepIndex) : PendingOk contracts s' := by
  apply h.mono _ hstep.ge
  intro key' entry hget
  rw [hs', Dict.get?_pop] at hget
  split at hget
  · cases hget
  · exact hget

theorem PendingOk.commit (h : PendingOk contracts s) (check : Check) (v : ContractViolation) :
    PendingOk contracts (commitViolation check v s).2 := by
  apply h.mono _ (commitViolation_stepIndex check v s).ge
  intro key entry hget
  rw [commitViolation_softPending] at hget
  exact hget

section PendingOk

variable {contracts : List BehavioralContract} {check : Check}

theorem applyClause_pendingOk {c : BehavioralContract} {clause : Clause} {step : ℕ} {value : Bool}
    {s : EnforcerState} (hc : c ∈ contracts) (hs : PendingOk contracts s)
    (hstep : step = s.stepIndex) :
    PendingOk contracts (applyClause check c clause step value s).2 := by
  unfold applyClause
  split
  · unfold dischargeRecovery
    split
    · exact hs
    · split
      · exact hs
      · exact hs.pop rfl rfl
  · rename_i hsoft
    unfold handleSoftViolation
    simp only
    split
    · exact hs
    · apply PendingOk.commit
      intro key entry hget
      simp only [Dict.get?_set] at hget
      split at hget
      · rename_i hkey
        rw [← Option.some.inj hget, hkey]
        exact ⟨rfl, rfl, hsoft, ⟨c, hc, rfl, rfl⟩, hstep.le⟩
      · exact hs key entry hget
  · exact hs
  · exact hs.commit _ _

theorem processAgenda_pendingOk {xs : List (BehavioralContract × Clause)} {step : ℕ}
    {s : EnforcerState} (hxs : ∀ x ∈ xs, x.1 ∈ contracts) (hs : PendingOk contracts s)
    (hstep : step = s.stepIndex) :
    PendingOk contracts (processAgenda compare check step xs s).2 := by
  induction xs generalizing s with
  | nil => exact hs
  | cons x rest ih =>
    obtain ⟨c, clause⟩ := x
    simp only [processAgenda, stepClause]
    cases evaluateFinite compare check.context clause.formula with
    | error e => exact hs
    | ok value =>
      have hnext : PendingOk contracts (applyClause check c clause step value s).2 :=
        applyClause_pendingOk (hxs (c, clause) (List.mem_cons_self ..)) hs hstep
      have hindex : (applyClause check c clause step value s).2.stepIndex = s.stepIndex :=
        applyClause_stepIndex
      simp only
      match hresult : applyClause check c clause step value s with
      | (.error e, s') =>
        rw [hresult] at hnext
        exact hnext
      | (.ok (), s') =>
        rw [hresult] at hnext hindex
        exact ih (fun x hx => hxs x (List.mem_cons_of_mem _ hx)) hnext (hstep.trans hindex.symm)

theorem afterAgenda_pendingOk {enf : ContractEnforcer} {s : EnforcerState}
    (hs : PendingOk enf.contracts s) :
    PendingOk enf.contracts (afterAgenda compare enf check s) := by
  have hnext : PendingOk enf.contracts { s with stepIndex := s.stepIndex + 1 } :=
    hs.mono (fun _ _ hget => hget) (Nat.le_succ _)
  exact processAgenda_pendingOk compare (fun x hx => mem_agenda enf check hx) hnext rfl

theorem sweepKeys_pendingOk {keys : List Key} {step : ℕ} {s : EnforcerState}
    (hs : PendingOk contracts s) :
    PendingOk contracts (sweepKeys contracts check step keys s).2 := by
  induction keys generalizing s with
  | nil => exact hs
  | cons key rest ih =>
    simp only [sweepKeys]
    split
    · exact hs
    · rename_i entry _
      have hpop : PendingOk contracts { s with softPending := s.softPending.pop key } :=
        hs.pop rfl rfl
      split
      · exact ih hpop
      · rename_i c _
        have hcommit := hpop.commit check (escalationRecord check c entry step)
        split
        · rename_i hresult
          rw [hresult] at hcommit
          exact hcommit
        · rename_i hresult
          rw [hresult] at hcommit
          exact ih hcommit

end PendingOk

section Walk

variable {compare} {check : Check} {step : ℕ}

def StopsAtEvaluations (compare : PyVal → Op → Option Str → Except PyErr Bool) (check : Check)
    (step : ℕ) (xs : List (BehavioralContract × Clause)) (s : EnforcerState) : Prop :=
  LedgerAccepts check ∨ (processAgenda compare check step xs s).1 = .ok ()

variable {s : EnforcerState} {rest : List (BehavioralContract × Clause)} {c : BehavioralContract}

theorem StopsAtEvaluations.head {clause : Clause} {value : Bool}
    (h : StopsAtEvaluations compare check step ((c, clause) :: rest) s)
    (hvalue : evaluateFinite compare check.context clause.formula = .ok value) :
    (applyClause check c clause step value s).1 = .ok () := by
  rcases h with hledger | hok
  · exact applyClause_returns hledger
  · simp only [processAgenda, stepClause, hvalue] at hok
    match happly : applyClause check c clause step value s with
    | (.ok (), s') => rfl
    | (.error e, s') =>
      rw [happly] at hok
      cases hok

theorem processAgenda_cons {clause : Clause} {value : Bool}
    (hvalue : evaluateFinite compare check.context clause.formula = .ok value)
    (happly : (applyClause check c clause step value s).1 = .ok ()) :
    processAgenda compare check step ((c, clause) :: rest) s =
      processAgenda compare check step rest (applyClause check c clause step value s).2 := by
  simp only [processAgenda, stepClause, hvalue]
  match hresult : applyClause check c clause step value s with
  | (.ok (), s') => rfl
  | (.error e, s') =>
    rw [hresult] at happly
    cases happly

theorem StopsAtEvaluations.tail {clause : Clause} {value : Bool}
    (h : StopsAtEvaluations compare check step ((c, clause) :: rest) s)
    (hvalue : evaluateFinite compare check.context clause.formula = .ok value) :
    StopsAtEvaluations compare check step rest (applyClause check c clause step value s).2 := by
  have happly := h.head hvalue
  rcases h with hledger | hok
  · exact .inl hledger
  · rw [processAgenda_cons hvalue happly] at hok
    exact .inr hok

theorem processAgenda_of_raises {clause : Clause} {e : PyErr}
    (hvalue : evaluateFinite compare check.context clause.formula = .error e) :
    processAgenda compare check step ((c, clause) :: rest) s = (.error e, s) := by
  simp only [processAgenda, stepClause, hvalue]

variable {xs : List (BehavioralContract × Clause)}

theorem processAgenda_invariant {P : EnforcerState → Prop}
    (hstops : StopsAtEvaluations compare check step xs s) (h0 : P s)
    (hstep : ∀ x ∈ xs, ∀ value s, (applyClause check x.1 x.2 step value s).1 = .ok () → P s →
      P (applyClause check x.1 x.2 step value s).2) :
    P (processAgenda compare check step xs s).2 := by
  induction xs generalizing s with
  | nil => exact h0
  | cons x rest ih =>
    obtain ⟨c, clause⟩ := x
    cases hvalue : evaluateFinite compare check.context clause.formula with
    | error e =>
      rw [processAgenda_of_raises hvalue]
      exact h0
    | ok value =>
      have happly := hstops.head hvalue
      rw [processAgenda_cons hvalue happly]
      apply ih (hstops.tail hvalue)
      · exact hstep (c, clause) (List.mem_cons_self ..) value s happly h0
      · exact fun x hx => hstep x (List.mem_cons_of_mem _ hx)

theorem processAgenda_trail (hstops : StopsAtEvaluations compare check step xs s) :
    ∃ extra, trail (processAgenda compare check step xs s).2 = trail s ++ extra ∧
      ∀ m ∈ extra, m.stepIndex = step ∧ (m.recoveryDeadlineStep = none ∨ m.severity = .warn) := by
  apply processAgenda_invariant (P := fun s' => ∃ extra, trail s' = trail s ++ extra ∧
    ∀ m ∈ extra, m.stepIndex = step ∧ (m.recoveryDeadlineStep = none ∨ m.severity = .warn)) hstops
  · exact ⟨[], (List.append_nil _).symm, List.forall_mem_nil _⟩
  · rintro x - value s' happly ⟨extra, htrail, hextra⟩
    rcases applyClause_trail happly with hsame | ⟨m, hnew, -, hm⟩
    · exact ⟨extra, hsame.trans htrail, hextra⟩
    · refine ⟨extra ++ [m], by rw [hnew, htrail, List.append_assoc], ?_⟩
      intro m' hm'
      rcases List.mem_append.mp hm' with hm' | hm'
      · exact hextra m' hm'
      · rw [List.mem_singleton.mp hm']
        exact hm

theorem processAgenda_returns_iff (hledger : LedgerAccepts check)
    (xs : List (BehavioralContract × Clause)) (s : EnforcerState) :
    (processAgenda compare check step xs s).1 = .ok () ↔
      ∀ x ∈ xs, ∃ value, evaluateFinite compare check.context x.2.formula = .ok value := by
  induction xs generalizing s with
  | nil => exact ⟨fun _ => List.forall_mem_nil _, fun _ => rfl⟩
  | cons x rest ih =>
    obtain ⟨c, clause⟩ := x
    rw [List.forall_mem_cons]
    cases hvalue : evaluateFinite compare check.context clause.formula with
    | error e =>
      rw [processAgenda_of_raises hvalue]
      constructor
      · intro h
        cases h
      · rintro ⟨⟨value, h⟩, -⟩
        cases h
    | ok value =>
      rw [processAgenda_cons hvalue (applyClause_returns hledger), ih]
      exact ⟨fun h => ⟨⟨value, rfl⟩, h⟩, fun h => h.2⟩

def observed (compare : PyVal → Op → Option Str → Except PyErr Bool) (check : Check) (key : Key) :
    List (BehavioralContract × Clause) → Option Bool
  | [] => none
  | (c, clause) :: rest =>
    match evaluateFinite compare check.context clause.formula with
    | .error _ => none
    | .ok value =>
      if keyOf check.agentId c clause = some key then some value
      else observed compare check key rest

def DistinctKeys (agentId : Str) (xs : List (BehavioralContract × Clause)) : Prop :=
  xs.Pairwise fun x y => ∀ key, keyOf agentId x.1 x.2 = some key → keyOf agentId y.1 y.2 ≠ some key

theorem observed_eq_none {key : Key} (h : ∀ x ∈ xs, keyOf check.agentId x.1 x.2 ≠ some key) :
    observed compare check key xs = none := by
  induction xs with
  | nil => rfl
  | cons x rest ih =>
    obtain ⟨c, clause⟩ := x
    have hhead : keyOf check.agentId c clause ≠ some key := h (c, clause) (List.mem_cons_self ..)
    have htail := ih fun x hx => h x (List.mem_cons_of_mem _ hx)
    simp only [observed, if_neg hhead, htail]
    split
    · rfl
    · rfl

theorem processAgenda_token {key : Key} {window : ℕ}
    (hstops : StopsAtEvaluations compare check step xs s)
    (hdistinct : DistinctKeys check.agentId xs)
    (hwindow : ∀ x ∈ xs, keyOf check.agentId x.1 x.2 = some key → x.1.recoveryWindowK = window) :
    token (processAgenda compare check step xs s).2 key =
      Obligation.evaluate window step (observed compare check key xs) (token s key) := by
  induction xs generalizing s with
  | nil => exact (Obligation.evaluate_none window step _).symm
  | cons x rest ih =>
    obtain ⟨c, clause⟩ := x
    have hrest := List.pairwise_cons.mp hdistinct
    simp only [observed]
    cases hvalue : evaluateFinite compare check.context clause.formula with
    | error e =>
      rw [processAgenda_of_raises hvalue]
      exact (Obligation.evaluate_none window step _).symm
    | ok value =>
      have happly := hstops.head hvalue
      rw [processAgenda_cons hvalue happly,
        ih (hstops.tail hvalue) hrest.2 fun x hx => hwindow x (List.mem_cons_of_mem _ hx),
        applyClause_token happly]
      simp only
      by_cases hkey : keyOf check.agentId c clause = some key
      · rw [if_pos hkey, if_pos hkey, observed_eq_none fun y hy => hrest.1 y hy key hkey,
          Obligation.evaluate_none, hwindow (c, clause) (List.mem_cons_self ..) hkey]
      · rw [if_neg hkey, if_neg hkey]

end Walk

theorem mem_indexedClauses {kind : ViolatedClause} {fs : List Node} {ltls : List Str} {idx : ℕ}
    {cl : Clause} (h : cl ∈ indexedClauses kind idx fs ltls) : cl.kind = kind ∧ idx ≤ cl.index := by
  induction fs generalizing ltls idx with
  | nil => cases h
  | cons f fs ih =>
    cases ltls with
    | nil => cases h
    | cons ltl ltls =>
      rcases List.mem_cons.mp h with rfl | hmem
      · exact ⟨rfl, le_rfl⟩
      · have htail := ih hmem
        exact ⟨htail.1, (Nat.le_succ idx).trans htail.2⟩

def Apart (x y : Clause) : Prop := ¬ (x.kind = y.kind ∧ x.index = y.index)

theorem indexedClauses_apart (kind : ViolatedClause) (fs : List Node) (ltls : List Str) (idx : ℕ) :
    (indexedClauses kind idx fs ltls).Pairwise Apart := by
  induction fs generalizing ltls idx with
  | nil => exact List.Pairwise.nil
  | cons f fs ih =>
    cases ltls with
    | nil => exact List.Pairwise.nil
    | cons ltl ltls =>
      refine List.Pairwise.cons ?_ (ih ltls (idx + 1))
      intro y hy
      have hle := (mem_indexedClauses hy).2
      rintro ⟨-, hidx⟩
      simp only at hidx
      omega

structure ApartOf (kinds : List ViolatedClause) (cls : List Clause) : Prop where
  pairwise : cls.Pairwise Apart
  kind_mem : ∀ cl ∈ cls, cl.kind ∈ kinds

theorem ApartOf.append {kinds kinds' : List ViolatedClause} {cls cls' : List Clause}
    (h : ApartOf kinds cls) (h' : ApartOf kinds' cls') (hdisjoint : ∀ k ∈ kinds, k ∉ kinds') :
    ApartOf (kinds ++ kinds') (cls ++ cls') where
  pairwise := by
    rw [List.pairwise_append]
    refine ⟨h.pairwise, h'.pairwise, ?_⟩
    rintro x hx y hy ⟨hkind, -⟩
    exact hdisjoint x.kind (h.kind_mem x hx) (hkind ▸ h'.kind_mem y hy)
  kind_mem := by
    intro cl hcl
    rcases List.mem_append.mp hcl with hcl | hcl
    · exact List.mem_append_left _ (h.kind_mem cl hcl)
    · exact List.mem_append_right _ (h'.kind_mem cl hcl)

theorem apartOf_indexed (kind : ViolatedClause) (fs : List Node) (ltls : List Str) :
    ApartOf [kind] (indexedClauses kind 0 fs ltls) where
  pairwise := indexedClauses_apart kind fs ltls 0
  kind_mem := fun _ hcl => List.mem_singleton.mpr (mem_indexedClauses hcl).1

theorem apartOf_optional (kind : ViolatedClause) (formula : Option Node) (ltl : Str) :
    ApartOf [kind] (formula.toList.map fun f => ⟨kind, 0, f, ltl⟩) := by
  cases formula with
  | none => exact ⟨List.Pairwise.nil, List.forall_mem_nil _⟩
  | some f =>
    refine ⟨List.pairwise_singleton _ _, ?_⟩
    intro cl hcl
    rw [List.mem_singleton.mp hcl]
    exact List.mem_singleton.mpr rfl

theorem clauses_apart (phase : Phase) (c : BehavioralContract) (p : ParsedFormulas) :
    (clauses phase c p).Pairwise Apart := by
  unfold clauses
  cases phase with
  | pre =>
    exact (((((apartOf_optional .precondition _ _).append (apartOf_indexed .hardInvariant _ _)
      (by decide)).append (apartOf_indexed .hardGovernance _ _) (by decide)).append
      (apartOf_indexed .softInvariant _ _) (by decide)).append
      (apartOf_indexed .softGovernance _ _) (by decide)).pairwise
  | post =>
    exact (((((apartOf_optional .postcondition _ _).append (apartOf_indexed .hardInvariant _ _)
      (by decide)).append (apartOf_indexed .hardGovernance _ _) (by decide)).append
      (apartOf_indexed .softInvariant _ _) (by decide)).append
      (apartOf_indexed .softGovernance _ _) (by decide)).pairwise

theorem keyOf_eq_some {agentId : Str} {c : BehavioralContract} {clause : Clause} {key : Key}
    (h : keyOf agentId c clause = some key) :
    clause.kind.isSoft = true ∧ key = ⟨agentId, c.contractId, clause.kind, clause.index⟩ := by
  unfold keyOf at h
  split at h
  · rename_i hsoft
    exact ⟨hsoft, (Option.some.inj h).symm⟩
  · cases h

section Agenda

variable (enf : ContractEnforcer) (check : Check)

theorem active_distinct :
    (enf.active check).Pairwise fun x y => x.1.contractId ≠ y.1.contractId := by
  have hlength : enf.contracts.length ≤ enf.parsed.length :=
    ((mapM_ok_iff _ _ _).mp enf.parsed_eq).length_eq.le
  have hids : ((enf.contracts.zip enf.parsed).map fun cp => cp.1.contractId).Nodup := by
    have hmap : ((enf.contracts.zip enf.parsed).map fun cp => cp.1.contractId) =
        enf.contracts.map (·.contractId) := by
      conv_rhs => rw [← List.map_fst_zip hlength, List.map_map]
      rfl
    rw [hmap]
    exact enf.ids_nodup
  exact (List.pairwise_map.mp hids).sublist List.filter_sublist

theorem agenda_distinct : DistinctKeys check.agentId (agenda enf check) := by
  unfold DistinctKeys agenda
  rw [List.pairwise_flatMap]
  constructor
  · intro cp hcp
    rw [List.pairwise_map]
    refine (clauses_apart check.phase cp.1 cp.2).imp ?_
    intro x y hapart key hx hy
    have hx' := (keyOf_eq_some hx).2
    have hy' := (keyOf_eq_some hy).2
    rw [hx', Key.mk.injEq] at hy'
    exact hapart hy'.2.2
  · refine (active_distinct enf check).imp ?_
    intro cp cp' hids x hx y hy key hkx hky
    obtain ⟨cl, -, rfl⟩ := List.mem_map.mp hx
    obtain ⟨cl', -, rfl⟩ := List.mem_map.mp hy
    have hx' := (keyOf_eq_some hkx).2
    have hy' := (keyOf_eq_some hky).2
    rw [hx', Key.mk.injEq] at hy'
    exact hids hy'.2.1

theorem agenda_window {c : BehavioralContract} {key : Key} (hc : c ∈ enf.contracts)
    (hid : c.contractId = key.contractId) :
    ∀ x ∈ agenda enf check, keyOf check.agentId x.1 x.2 = some key →
      x.1.recoveryWindowK = c.recoveryWindowK := by
  intro x hx hkey
  have hkey' := (keyOf_eq_some hkey).2
  have hsame : x.1.contractId = c.contractId := by
    rw [hid, hkey']
  rw [List.inj_on_of_nodup_map enf.ids_nodup (mem_agenda enf check hx) hc hsame]

end Agenda

theorem mem_expiredKeys {step : ℕ} {key : Key} :
    key ∈ expiredKeys step s ↔
      ∃ entry, s.softPending.get? key = some entry ∧ entry.deadlineStep < step := by
  unfold expiredKeys
  rw [List.mem_map]
  constructor
  · rintro ⟨e, he, rfl⟩
    rw [List.mem_filter, decide_eq_true_eq] at he
    exact ⟨e.2, (Dict.get?_eq_some_iff _ _ _).mpr he.1, he.2⟩
  · rintro ⟨entry, hget, hlate⟩
    refine ⟨(key, entry), ?_, rfl⟩
    rw [List.mem_filter, decide_eq_true_eq]
    exact ⟨(Dict.get?_eq_some_iff _ _ _).mp hget, hlate⟩

theorem expiredKeys_nodup (step : ℕ) (s : EnforcerState) : (expiredKeys step s).Nodup :=
  s.softPending.nodup.sublist (List.filter_sublist.map Prod.fst)

def escalationOf (contracts : List BehavioralContract) (check : Check) (step : ℕ)
    (s : EnforcerState) (key : Key) : Option ContractViolation :=
  match s.softPending.get? key with
  | none => none
  | some entry =>
    (contracts.find? fun c => c.contractId = entry.contractId).map fun c =>
      recorded check (escalationRecord check c entry step)

structure Swept (contracts : List BehavioralContract) (check : Check) (step : ℕ) (keys : List Key)
    (s s' : EnforcerState) : Prop where
  stepIndex_eq : s'.stepIndex = s.stepIndex
  get?_eq : ∀ key, s'.softPending.get? key =
    if key ∈ keys then none else s.softPending.get? key
  violations_eq : s'.violations =
    s.violations ++ keys.filterMap (escalationOf contracts check step s)

theorem escalationOf_pop {check : Check} {step : ℕ}
    {key key' : Key} {vs : List ContractViolation} (h : key' ≠ key) :
    escalationOf contracts check step
      { s with softPending := s.softPending.pop key, violations := vs } key' =
      escalationOf contracts check step s key' := by
  unfold escalationOf
  simp only [Dict.get?_pop, if_neg h]

section Sweep

variable {contracts : List BehavioralContract} {check : Check} {step : ℕ}

theorem Swept.cons {key : Key} {rest : List Key} {s s' : EnforcerState}
    {record : List ContractViolation} (hnodup : key ∉ rest)
    (hrecord : (escalationOf contracts check step s key).toList = record)
    (h : Swept contracts check step rest
      { s with softPending := s.softPending.pop key, violations := s.violations ++ record } s') :
    Swept contracts check step (key :: rest) s s' where
  stepIndex_eq := h.stepIndex_eq
  get?_eq := by
    intro key'
    rw [h.get?_eq key', Dict.get?_pop]
    by_cases hrest : key' ∈ rest
    · rw [if_pos hrest, if_pos (List.mem_cons_of_mem _ hrest)]
    · by_cases hkey : key' = key
      · rw [if_neg hrest, if_pos hkey, if_pos (hkey ▸ List.mem_cons_self ..)]
      · rw [if_neg hrest, if_neg hkey, if_neg (List.not_mem_cons_of_ne_of_not_mem hkey hrest)]
  violations_eq := by
    have hrest : rest.filterMap (escalationOf contracts check step
        { s with softPending := s.softPending.pop key, violations := s.violations ++ record }) =
        rest.filterMap (escalationOf contracts check step s) := by
      apply List.filterMap_congr
      intro key' hkey'
      exact escalationOf_pop fun heq => hnodup (heq ▸ hkey')
    rw [h.violations_eq, hrest, ← hrecord, List.filterMap_cons]
    cases escalationOf contracts check step s key with
    | none => rw [Option.toList_none, List.append_nil]
    | some v => rw [Option.toList_some, List.append_assoc, List.singleton_append]

theorem sweepKeys_spec {keys : List Key} {s : EnforcerState}
    (hends : LedgerAccepts check ∨ (sweepKeys contracts check step keys s).1 = .ok ())
    (hnodup : keys.Nodup) (hpresent : ∀ key ∈ keys, s.softPending.get? key ≠ none) :
    (sweepKeys contracts check step keys s).1 = .ok () ∧
      Swept contracts check step keys s (sweepKeys contracts check step keys s).2 := by
  induction keys generalizing s with
  | nil =>
    refine ⟨rfl, rfl, fun key => ?_, ?_⟩
    · rw [if_neg List.not_mem_nil]
      rfl
    · rw [List.filterMap_nil, List.append_nil]
      rfl
  | cons key rest ih =>
    obtain ⟨hkey, hrest⟩ := List.nodup_cons.mp hnodup
    obtain ⟨entry, hentry⟩ := Option.ne_none_iff_exists'.mp (hpresent key (List.mem_cons_self ..))
    have hstill : ∀ vs, ∀ key' ∈ rest, ({ s with
        softPending := s.softPending.pop key, violations := vs }).softPending.get? key' ≠ none := by
      intro vs key' hkey'
      simp only [Dict.get?_pop]
      rw [if_neg fun (heq : key' = key) => hkey (heq ▸ hkey')]
      exact hpresent key' (List.mem_cons_of_mem _ hkey')
    cases hfind : contracts.find? (fun c => c.contractId = entry.contractId) with
    | none =>
      have hstep : sweepKeys contracts check step (key :: rest) s =
          sweepKeys contracts check step rest { s with softPending := s.softPending.pop key } := by
        simp only [sweepKeys, hentry, hfind]
      have hnone : (escalationOf contracts check step s key).toList = [] := by
        simp only [escalationOf, hentry, hfind, Option.map_none, Option.toList_none]
      rw [hstep] at hends ⊢
      obtain ⟨hok, hswept⟩ := ih hends hrest (hstill s.violations)
      refine ⟨hok, Swept.cons hkey hnone ?_⟩
      rw [List.append_nil]
      exact hswept
    | some c =>
      have hcommit : (commitViolation check (escalationRecord check c entry step)
          { s with softPending := s.softPending.pop key }).1 = .ok () := by
        rcases hends with hledger | hok
        · exact commitViolation_returns hledger _ _
        · simp only [sweepKeys, hentry, hfind] at hok
          cases hresult : commitViolation check (escalationRecord check c entry step)
              { s with softPending := s.softPending.pop key } with
          | mk result s' =>
            cases result with
            | ok u => rfl
            | error e =>
              rw [hresult] at hok
              cases hok
      have hstep : sweepKeys contracts check step (key :: rest) s =
          sweepKeys contracts check step rest { s with
            softPending := s.softPending.pop key
            violations := s.violations ++ [recorded check (escalationRecord check c entry step)] } := by
        simp only [sweepKeys, hentry, hfind]
        have hstate := commitViolation_state hcommit
        cases hresult : commitViolation check (escalationRecord check c entry step)
            { s with softPending := s.softPending.pop key } with
        | mk result s' =>
          cases result with
          | ok u =>
            rw [hresult] at hstate
            simp only at hstate
            rw [hstate]
          | error e =>
            rw [hresult] at hcommit
            cases hcommit
      have hsome : (escalationOf contracts check step s key).toList =
          [recorded check (escalationRecord check c entry step)] := by
        simp only [escalationOf, hentry, hfind, Option.map_some, Option.toList_some]
      rw [hstep] at hends ⊢
      obtain ⟨hok, hswept⟩ := ih hends hrest (hstill _)
      exact ⟨hok, Swept.cons hkey hsome hswept⟩

theorem escalationOf_stepIndex {s : EnforcerState} {key : Key} {r : ContractViolation}
    (h : escalationOf contracts check step s key = some r) : r.stepIndex = step := by
  unfold escalationOf at h
  split at h
  · cases h
  · rename_i entry _
    obtain ⟨c, -, rfl⟩ := Option.map_eq_some_iff.mp h
    exact (recorded_fields check (escalationRecord check c entry step)).2.2.2.1

theorem escalationOf_pending {s : EnforcerState} (hs : PendingOk contracts s) {key : Key}
    {entry : SoftRecoveryEntry} (hget : s.softPending.get? key = some entry) :
    ∃ r, escalationOf contracts check step s key = some r ∧ r.contractId = key.contractId ∧
      r.violatedClause = key.kind ∧ r.severity = .block ∧ r.stepIndex = step ∧
      r.recoveryDeadlineStep = some entry.deadlineStep := by
  have hok := hs key entry hget
  obtain ⟨c, hc, hid, -⟩ := hok.known
  have hfind : (contracts.find? fun c => c.contractId = entry.contractId).isSome = true := by
    rw [List.find?_isSome]
    exact ⟨c, hc, decide_eq_true (by rw [hid, hok.contractId_eq])⟩
  obtain ⟨c', hc'⟩ := Option.isSome_iff_exists.mp hfind
  have hid' := List.find?_some hc'
  rw [decide_eq_true_eq] at hid'
  obtain ⟨hrid, hrclause, hrseverity, hrstep, hrdeadline⟩ :=
    recorded_fields check (escalationRecord check c' entry step)
  refine ⟨recorded check (escalationRecord check c' entry step), ?_, ?_, ?_, ?_, ?_, ?_⟩
  · simp only [escalationOf, hget, hc', Option.map_some]
  · rw [hrid, ← hok.contractId_eq, ← hid']
    rfl
  · rw [hrclause, ← hok.violatedClause_eq]
    rfl
  · rw [hrseverity]
    rfl
  · rw [hrstep]
    rfl
  · rw [hrdeadline]
    rfl

/-- `r` is the block record that the sweep of step `step` makes of the pending
obligation of `key`. -/
def IsEscalation (s : EnforcerState) (step : ℕ) (key : Key) (r : ContractViolation) : Prop :=
  r.severity = .block ∧ r.stepIndex = step ∧ r.contractId = key.contractId ∧
    r.violatedClause = key.kind ∧
    ∃ entry, s.softPending.get? key = some entry ∧ r.recoveryDeadlineStep = some entry.deadlineStep

theorem forall₂_filterMap {α β : Type} {R : α → β → Prop} {f : α → Option β} {xs : List α}
    (h : ∀ x ∈ xs, ∃ y, f x = some y ∧ R x y) : List.Forall₂ R xs (xs.filterMap f) := by
  induction xs with
  | nil => exact List.Forall₂.nil
  | cons x rest ih =>
    obtain ⟨y, hy, hxy⟩ := h x (List.mem_cons_self ..)
    rw [List.filterMap_cons, hy]
    exact List.Forall₂.cons hxy (ih fun z hz => h z (List.mem_cons_of_mem _ hz))

theorem sweep_escalations {s : EnforcerState} (hs : PendingOk contracts s) :
    List.Forall₂ (IsEscalation s step) (expiredKeys step s)
      ((expiredKeys step s).filterMap (escalationOf contracts check step s)) := by
  apply forall₂_filterMap
  intro key hkey
  obtain ⟨entry, hget, -⟩ := mem_expiredKeys.mp hkey
  obtain ⟨r, hr, hid, hclause, hblock, hstep, hdeadline⟩ := escalationOf_pending hs hget
  exact ⟨r, hr, hblock, hstep, hid, hclause, entry, hget, hdeadline⟩

end Sweep

section CheckToken

variable {compare} {enf : ContractEnforcer} {check : Check}

def evaluatesAll (compare : PyVal → Op → Option Str → Except PyErr Bool) (enf : ContractEnforcer)
    (check : Check) : Bool :=
  (agenda enf check).all fun x => (evaluateFinite compare check.context x.2.formula).isOk

theorem isOk_iff {ε α : Type} (x : Except ε α) : x.isOk = true ↔ ∃ a, x = .ok a := by
  cases x with
  | error e =>
    constructor
    · intro h
      cases h
    · rintro ⟨a, h⟩
      cases h
  | ok a => exact ⟨fun _ => ⟨a, rfl⟩, fun _ => rfl⟩

theorem agendaReturns_iff (hledger : LedgerAccepts check) (s : EnforcerState) :
    agendaReturns compare enf check s ↔ evaluatesAll compare enf check = true := by
  unfold agendaReturns evaluatesAll
  rw [processAgenda_returns_iff hledger, List.all_eq_true]
  simp only [isOk_iff]

variable {s : EnforcerState}

theorem agendaReturns_of_returns
    (h : ∃ r, (enf.check compare check s).1 = .ok r) : agendaReturns compare enf check s := by
  by_contra hagenda
  obtain ⟨r, hr⟩ := h
  obtain ⟨⟨e, he⟩, -⟩ := check_of_agenda_error compare enf check s hagenda
  rw [hr] at he
  cases he

theorem check_swept (hagenda : agendaReturns compare enf check s)
    (hends : LedgerAccepts check ∨ ∃ r, (enf.check compare check s).1 = .ok r) :
    (∃ r, (enf.check compare check s).1 = .ok r) ∧
      Swept enf.contracts check (s.stepIndex + 1)
        (expiredKeys (s.stepIndex + 1) (afterAgenda compare enf check s))
        (afterAgenda compare enf check s) (enf.check compare check s).2 := by
  obtain ⟨cHard, cSoft, hforget⟩ := check_of_agenda_ok compare enf check s hagenda
  have hends' : LedgerAccepts check ∨
      (sweepKeys enf.contracts check (s.stepIndex + 1)
        (expiredKeys (s.stepIndex + 1) (afterAgenda compare enf check s))
        { afterAgenda compare enf check s with
          cHardHistory := cHard, cSoftHistory := cSoft }).1 = .ok () := by
    rcases hends with hledger | ⟨r, hr⟩
    · exact .inl hledger
    · rw [← hforget]
      unfold forget
      rw [hr]
      exact .inr rfl
  obtain ⟨hok, hswept⟩ := sweepKeys_spec hends' (expiredKeys_nodup _ _) (by
    intro key hkey
    obtain ⟨entry, hget, -⟩ := mem_expiredKeys.mp hkey
    exact Option.ne_none_iff_exists'.mpr ⟨entry, hget⟩)
  rw [← hforget] at hok hswept
  obtain ⟨hreturns, -⟩ := forget_ok (Prod.ext hok rfl)
  exact ⟨hreturns, hswept.stepIndex_eq, hswept.get?_eq, hswept.violations_eq⟩

theorem sweep_token {contracts : List BehavioralContract} {step : ℕ} {s s' : EnforcerState}
    (h : Swept contracts check step (expiredKeys step s) s s') (key : Key) :
    token s' key = Obligation.sweep step true (token s key) := by
  unfold token
  rw [h.get?_eq key]
  cases hget : s.softPending.get? key with
  | none => rw [ite_self]; rfl
  | some entry =>
    show _ = if true = true ∧ entry.deadlineStep < step then _ else _
    by_cases hlate : entry.deadlineStep < step
    · rw [if_pos (mem_expiredKeys.mpr ⟨entry, hget, hlate⟩), if_pos ⟨rfl, hlate⟩]
      rfl
    · rw [if_neg, if_neg fun h => hlate h.2]
      · rfl
      · intro hmem
        obtain ⟨entry', hget', hlate'⟩ := mem_expiredKeys.mp hmem
        rw [hget] at hget'
        exact hlate (Option.some.inj hget' ▸ hlate')

theorem afterAgenda_stepIndex
    (hstops : StopsAtEvaluations compare check (s.stepIndex + 1) (agenda enf check)
      { s with stepIndex := s.stepIndex + 1 }) :
    (afterAgenda compare enf check s).stepIndex = s.stepIndex + 1 := by
  apply processAgenda_invariant (P := fun s' => s'.stepIndex = s.stepIndex + 1) hstops rfl
  intro x _ value s' _ hs'
  rw [applyClause_stepIndex]
  exact hs'

theorem check_token (hledger : LedgerAccepts check) {c : BehavioralContract} {key : Key}
    (hc : c ∈ enf.contracts) (hid : c.contractId = key.contractId) (s : EnforcerState) :
    token (enf.check compare check s).2 key =
      Obligation.next c.recoveryWindowK (s.stepIndex + 1)
        ⟨observed compare check key (agenda enf check), evaluatesAll compare enf check⟩
        (token s key) := by
  have hwalk : token (afterAgenda compare enf check s) key =
      Obligation.evaluate c.recoveryWindowK (s.stepIndex + 1)
        (observed compare check key (agenda enf check)) (token s key) :=
    processAgenda_token (.inl hledger) (agenda_distinct enf check)
      (agenda_window enf check hc hid)
  show _ = Obligation.sweep _ _ (Obligation.evaluate _ _ _ _)
  rw [← hwalk]
  by_cases hagenda : agendaReturns compare enf check s
  · rw [(agendaReturns_iff hledger s).mp hagenda]
    exact sweep_token (check_swept hagenda (.inl hledger)).2 key
  · have hraises : evaluatesAll compare enf check = false := by
      rw [← Bool.not_eq_true]
      exact fun h => hagenda ((agendaReturns_iff hledger s).mpr h)
    rw [hraises, Obligation.sweep_false, (check_of_agenda_error compare enf check s hagenda).2]

theorem check_stepIndex (hledger : LedgerAccepts check) (s : EnforcerState) :
    (enf.check compare check s).2.stepIndex = s.stepIndex + 1 := by
  have hwalk : (afterAgenda compare enf check s).stepIndex = s.stepIndex + 1 :=
    afterAgenda_stepIndex (.inl hledger)
  by_cases hagenda : agendaReturns compare enf check s
  · rw [(check_swept hagenda (.inl hledger)).2.stepIndex_eq, hwalk]
  · rw [(check_of_agenda_error compare enf check s hagenda).2, hwalk]

theorem check_pendingOk (hs : PendingOk enf.contracts s) :
    PendingOk enf.contracts (enf.check compare check s).2 := by
  have hwalk : PendingOk enf.contracts (afterAgenda compare enf check s) :=
    afterAgenda_pendingOk compare hs
  by_cases hagenda : agendaReturns compare enf check s
  · obtain ⟨cHard, cSoft, hforget⟩ := check_of_agenda_ok compare enf check s hagenda
    have hstate := congrArg Prod.snd hforget
    simp only [forget] at hstate
    rw [hstate]
    exact sweepKeys_pendingOk hwalk
  · rw [(check_of_agenda_error compare enf check s hagenda).2]
    exact hwalk

theorem initialState_pendingOk (contracts : List BehavioralContract) :
    PendingOk contracts initialState := by
  intro key entry hget
  cases hget

theorem runChecks_pendingOk {checks : List Check}
    (hs : PendingOk enf.contracts s) : PendingOk enf.contracts (enf.runChecks compare checks s) := by
  induction checks generalizing s with
  | nil => exact hs
  | cons check rest ih => exact ih (check_pendingOk hs)

variable (compare enf) in
theorem afterAgenda_trail (hledger : LedgerAccepts check) (s : EnforcerState) :
    ∃ extra, trail (afterAgenda compare enf check s) = trail s ++ extra ∧
      ∀ m ∈ extra, m.stepIndex = s.stepIndex + 1 ∧
        (m.recoveryDeadlineStep = none ∨ m.severity = .warn) :=
  processAgenda_trail (.inl hledger)

variable (compare enf) in
theorem check_violations (hledger : LedgerAccepts check) (s : EnforcerState) :
    ∃ records, (enf.check compare check s).2.violations =
        (afterAgenda compare enf check s).violations ++ records ∧
      ∀ r ∈ records, r.stepIndex = s.stepIndex + 1 := by
  by_cases hagenda : agendaReturns compare enf check s
  · have hswept := (check_swept hagenda (.inl hledger)).2
    refine ⟨_, hswept.violations_eq, ?_⟩
    intro r hr
    obtain ⟨key, -, hkey⟩ := List.mem_filterMap.mp hr
    exact escalationOf_stepIndex hkey
  · refine ⟨[], ?_, List.forall_mem_nil _⟩
    rw [(check_of_agenda_error compare enf check s hagenda).2, List.append_nil]

theorem check_returns_iff (hledger : LedgerAccepts check) (s : EnforcerState) :
    (∃ r, (enf.check compare check s).1 = .ok r) ↔ evaluatesAll compare enf check = true := by
  rw [← agendaReturns_iff hledger s]
  exact ⟨agendaReturns_of_returns, fun hagenda => (check_swept hagenda (.inl hledger)).1⟩

end CheckToken

end TexGovernance.Contracts
