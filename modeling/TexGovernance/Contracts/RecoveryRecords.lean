import TexGovernance.Contracts.SoftObligations

/-!
# Which record a recovery marks

`_discharge_recovery` looks for the record of an obligation from the back of the list, by contract
id, agent id and clause kind.
-/

namespace TexGovernance.Contracts
open PyStr PyDict

/-- One discharge: `origin` is the place of the record appended when the
obligation was registered, if the ledger let it be appended. -/
structure Discharge where
  key : Key
  step : ℕ
  origin : Option ℕ
  before : List ContractViolation
  after : List ContractViolation

structure Noted where
  state : EnforcerState
  origin : Key → Option ℕ
  discharged : List Discharge

def Noted.initial : Noted := ⟨initialState, fun _ => none, []⟩

def noteClause (check : Check) (c : BehavioralContract) (clause : Clause) (step : ℕ)
    (value : Bool) (n : Noted) : Noted :=
  let key : Key := ⟨check.agentId, c.contractId, clause.kind, clause.index⟩
  let state := (applyClause check c clause step value n.state).2
  match (n.state.softPending.get? key).isSome, (state.softPending.get? key).isSome with
  | false, true =>
    -- registered: the record, if any, is the new last one
    { n with
      state
      origin := Function.update n.origin key
        (if n.state.violations.length < state.violations.length
          then some n.state.violations.length else none) }
  | true, false =>
    { n with
      state
      discharged := n.discharged ++
        [⟨key, step, n.origin key, n.state.violations, state.violations⟩] }
  | _, _ => { n with state }

section Runs

variable (compare : PyVal → Op → Option Str → Except PyErr Bool)

def noteAgenda (check : Check) (step : ℕ) : List (BehavioralContract × Clause) → Noted → Noted
  | [], n => n
  | (c, clause) :: rest, n =>
    match evaluateFinite compare check.context clause.formula with
    | .error _ => n
    | .ok value =>
      match (applyClause check c clause step value n.state).1 with
      | .error _ => noteClause check c clause step value n
      | .ok () => noteAgenda check step rest (noteClause check c clause step value n)

def noteCheck (enf : ContractEnforcer) (check : Check) (n : Noted) : Noted :=
  { noteAgenda compare check (n.state.stepIndex + 1) (agenda enf check)
      { n with state := { n.state with stepIndex := n.state.stepIndex + 1 } } with
    state := (enf.check compare check n.state).2 }

def noteRun (enf : ContractEnforcer) (checks : List Check) (n : Noted) : Noted :=
  checks.foldl (fun n check => noteCheck compare enf check n) n

theorem noteClause_state (check : Check) (c : BehavioralContract) (clause : Clause) (step : ℕ)
    (value : Bool) (n : Noted) :
    (noteClause check c clause step value n).state =
      (applyClause check c clause step value n.state).2 := by
  unfold noteClause
  simp only
  split
  · rfl
  · rfl
  · rfl

theorem noteAgenda_state (check : Check) (step : ℕ) (xs : List (BehavioralContract × Clause))
    (n : Noted) :
    (noteAgenda compare check step xs n).state =
      (processAgenda compare check step xs n.state).2 := by
  induction xs generalizing n with
  | nil => rfl
  | cons x rest ih =>
    obtain ⟨c, clause⟩ := x
    cases hvalue : evaluateFinite compare check.context clause.formula with
    | error e =>
      rw [processAgenda_of_raises hvalue]
      simp only [noteAgenda, hvalue]
    | ok value =>
      simp only [noteAgenda, processAgenda, stepClause, hvalue]
      have hstate := noteClause_state check c clause step value n
      cases happly : applyClause check c clause step value n.state with
      | mk result s' =>
        rw [happly] at hstate
        cases result with
        | error e => exact hstate
        | ok u =>
          simp only
          rw [ih, hstate]

theorem noteRun_state (enf : ContractEnforcer) (checks : List Check) (n : Noted) :
    (noteRun compare enf checks n).state = enf.runChecks compare checks n.state := by
  induction checks generalizing n with
  | nil => rfl
  | cons check rest ih => exact ih (noteCheck compare enf check n)

end Runs

def Discharge.MarksOwnRecord (d : Discharge) : Prop :=
  ∃ idx v, d.origin = some idx ∧ d.before[idx]? = some v ∧ v.recoveredAtStep = none ∧
    d.after = d.before.set idx { v with recoveredAtStep := some d.step }

theorem Discharge.MarksOwnRecord.changes {d : Discharge} (h : d.MarksOwnRecord) :
    d.after ≠ d.before := by
  obtain ⟨idx, v, -, hget, hwaits, hset⟩ := h
  intro hsame
  have hnew : d.after[idx]? = some { v with recoveredAtStep := some d.step } := by
    rw [hset, List.getElem?_set_self (List.getElem?_eq_some_iff.mp hget).1]
  rw [hsame, hget, Option.some.injEq] at hnew
  have hmarked := congrArg ContractViolation.recoveredAtStep hnew
  rw [hwaits] at hmarked
  cases hmarked

def Discharge.Shadowed (d : Discharge) (idx : ℕ) : Prop :=
  ∃ j v, idx < j ∧ d.before[j]? = some v ∧ v.contractId = d.key.contractId ∧
    v.violatedClause = d.key.kind ∧ v.recoveredAtStep = none ∧ v.recoveryDeadlineStep ≠ none

def Discharge.Findable (contracts : List BehavioralContract) (d : Discharge) : Prop :=
  ∃ idx, d.origin = some idx ∧
    (∀ c ∈ contracts, c.contractId = d.key.contractId → c.agentId = d.key.agentId) ∧
    ¬ d.Shadowed idx

theorem markLast_spec (entry : SoftRecoveryEntry) (t : ℕ) (vs : List ContractViolation) :
    ((∀ v ∈ vs, isOpenRecord entry v = false) ∧
      (markFirst entry t vs.reverse).reverse = vs) ∨
    ∃ idx v, vs[idx]? = some v ∧ isOpenRecord entry v = true ∧
      (∀ j w, idx < j → vs[j]? = some w → isOpenRecord entry w = false) ∧
      (markFirst entry t vs.reverse).reverse =
        vs.set idx { v with recoveredAtStep := some t } := by
  induction vs using List.reverseRecOn with
  | nil => exact .inl ⟨List.forall_mem_nil _, rfl⟩
  | append_singleton vs last ih =>
    rw [List.reverse_append, List.reverse_singleton, List.singleton_append, markFirst]
    cases hlast : isOpenRecord entry last with
    | true =>
      refine .inr ⟨vs.length, last, List.getElem?_concat_length, hlast, ?_, ?_⟩
      · intro j w hj hw
        rw [List.getElem?_eq_none (by simp; omega)] at hw
        cases hw
      · rw [if_pos rfl, List.reverse_cons, List.reverse_reverse, List.set_append_right _ _ le_rfl,
          Nat.sub_self]
        rfl
    | false =>
      rw [if_neg Bool.false_ne_true, List.reverse_cons]
      rcases ih with ⟨hnone, hsame⟩ | ⟨idx, v, hget, hopen, hlater, hset⟩
      · refine .inl ⟨?_, by rw [hsame]⟩
        intro w hw
        rcases List.mem_append.mp hw with hw | hw
        · exact hnone w hw
        · rw [List.mem_singleton.mp hw, hlast]
      · have hidx : idx < vs.length := (List.getElem?_eq_some_iff.mp hget).1
        refine .inr ⟨idx, v, ?_, hopen, ?_, ?_⟩
        · rw [List.getElem?_append_left hidx, hget]
        · intro j w hj hw
          rcases lt_or_ge j vs.length with hjlt | hjge
          · rw [List.getElem?_append_left hjlt] at hw
            exact hlater j w hj hw
          · have hmem := List.mem_of_getElem? (List.getElem?_append_right hjge ▸ hw)
            rw [List.mem_singleton.mp hmem, hlast]
        · rw [hset, List.set_append_left _ _ hidx]

theorem isOpenRecord_iff (entry : SoftRecoveryEntry) (v : ContractViolation) :
    isOpenRecord entry v = true ↔ v.contractId = entry.contractId ∧ v.agentId = entry.agentId ∧
      v.violatedClause = entry.violatedClause ∧ v.recoveredAtStep = none ∧
      v.recoveryDeadlineStep ≠ none := by
  unfold isOpenRecord
  simp only [Bool.and_eq_true, decide_eq_true_eq, Option.isNone_iff_eq_none, ne_eq,
    ← Option.isSome_iff_ne_none, and_assoc]

structure EntryOf (contracts : List BehavioralContract) (key : Key) (entry : SoftRecoveryEntry) :
    Prop where
  contractId_eq : entry.contractId = key.contractId
  violatedClause_eq : entry.violatedClause = key.kind
  agentId_eq : entry.agentId = key.agentId
  known : ∃ c ∈ contracts, c.contractId = key.contractId

def AgentOfContract (contracts : List BehavioralContract) (v : ContractViolation) : Prop :=
  ∀ c ∈ contracts, c.contractId = v.contractId → c.agentId = v.agentId

section OneDischarge

variable {contracts : List BehavioralContract} {d : Discharge} {entry : SoftRecoveryEntry}

theorem findable_of_marksOwnRecord (hentry : EntryOf contracts d.key entry)
    (hagent : ∀ v ∈ d.before, AgentOfContract contracts v)
    (hafter : d.after = (markFirst entry d.step d.before.reverse).reverse)
    (h : d.MarksOwnRecord) : d.Findable contracts := by
  obtain ⟨idx, v, horigin, hget, hwaits, hset⟩ := h
  have hidx : idx < d.before.length := (List.getElem?_eq_some_iff.mp hget).1
  have hnew : d.after[idx]? = some { v with recoveredAtStep := some d.step } := by
    rw [hset, List.getElem?_set_self hidx]
  have hchanged : d.after[idx]? ≠ d.before[idx]? := by
    rw [hnew, hget]
    intro heq
    have hmarked := congrArg ContractViolation.recoveredAtStep (Option.some.inj heq)
    rw [hwaits] at hmarked
    cases hmarked
  rcases markLast_spec entry d.step d.before with ⟨-, hsame⟩ | ⟨i, w, hw, hopen, hlater, hset'⟩
  · exact absurd (by rw [hafter, hsame]) hchanged
  · have hi : i = idx := by
      by_contra hne
      apply hchanged
      rw [hafter, hset', List.getElem?_set_ne hne]
    subst hi
    rw [hget] at hw
    obtain rfl := Option.some.inj hw
    obtain ⟨hid, hagentId, hkind, -, -⟩ := (isOpenRecord_iff entry v).mp hopen
    refine ⟨i, horigin, ?_, ?_⟩
    · intro c hc hcid
      have hown := hagent v (List.mem_of_getElem? hget) c hc
        (hcid.trans (hentry.contractId_eq.symm.trans hid.symm))
      rw [hown, hagentId, hentry.agentId_eq]
    · rintro ⟨j, w, hj, hw, hwid, hwkind, hwwaits, hwdeadline⟩
      have hclosed := hlater j w hj hw
      rw [← Bool.not_eq_true, isOpenRecord_iff] at hclosed
      obtain ⟨c, hc, hcid⟩ := hentry.known
      have hsame : w.agentId = v.agentId := by
        rw [← hagent w (List.mem_of_getElem? hw) c hc (hcid.trans hwid.symm)]
        exact hagent v (List.mem_of_getElem? hget) c hc
          (hcid.trans (hentry.contractId_eq.symm.trans hid.symm))
      exact hclosed ⟨hwid.trans hentry.contractId_eq.symm, hsame.trans hagentId,
        hwkind.trans hentry.violatedClause_eq.symm, hwwaits, hwdeadline⟩

theorem marksOwnRecord_of_findable (hentry : EntryOf contracts d.key entry)
    (hagent : ∀ v ∈ d.before, AgentOfContract contracts v)
    (hafter : d.after = (markFirst entry d.step d.before.reverse).reverse)
    (hwaiting : ∀ idx, d.origin = some idx → ∃ v, d.before[idx]? = some v ∧
      v.contractId = d.key.contractId ∧ v.violatedClause = d.key.kind ∧
      v.recoveryDeadlineStep ≠ none ∧ v.recoveredAtStep = none)
    (h : d.Findable contracts) : d.MarksOwnRecord := by
  obtain ⟨idx, horigin, hnames, hshadow⟩ := h
  obtain ⟨v, hget, hid, hkind, hdeadline, hwaits⟩ := hwaiting idx horigin
  obtain ⟨c, hc, hcid⟩ := hentry.known
  have hagentId : v.agentId = entry.agentId := by
    rw [hentry.agentId_eq, ← hnames c hc hcid]
    exact (hagent v (List.mem_of_getElem? hget) c hc (hcid.trans hid.symm)).symm
  have hopen : isOpenRecord entry v = true :=
    (isOpenRecord_iff entry v).mpr ⟨hid.trans hentry.contractId_eq.symm, hagentId,
      hkind.trans hentry.violatedClause_eq.symm, hwaits, hdeadline⟩
  rcases markLast_spec entry d.step d.before with ⟨hnone, -⟩ | ⟨i, w, hw, hwopen, hlater, hset⟩
  · have hclosed := hnone v (List.mem_of_getElem? hget)
    rw [hopen] at hclosed
    cases hclosed
  · obtain ⟨hwid, -, hwkind, hwwaits, hwdeadline⟩ := (isOpenRecord_iff entry w).mp hwopen
    have hi : i = idx := by
      rcases lt_trichotomy i idx with hlt | heq | hgt
      · have hclosed := hlater idx v hlt hget
        rw [hopen] at hclosed
        cases hclosed
      · exact heq
      · exact absurd ⟨i, w, hgt, hw, hwid.trans hentry.contractId_eq,
          hwkind.trans hentry.violatedClause_eq, hwwaits, hwdeadline⟩ hshadow
    subst hi
    rw [hget] at hw
    obtain rfl := Option.some.inj hw
    exact ⟨i, v, horigin, hget, hwaits, hafter.trans hset⟩

end OneDischarge

theorem commitViolation_violations (check : Check) (v : ContractViolation) (s : EnforcerState) :
    (commitViolation check v s).2.violations = s.violations ∨
      (commitViolation check v s).2.violations = s.violations ++ [recorded check v] := by
  unfold commitViolation recorded
  cases check.ledger with
  | none => exact .inr rfl
  | some append =>
    simp only
    cases append v with
    | error e => exact .inl rfl
    | ok eventId => exact .inr rfl

structure RecordOf (contracts : List BehavioralContract) (key : Key) (v : ContractViolation) :
    Prop where
  contractId_eq : v.contractId = key.contractId
  violatedClause_eq : v.violatedClause = key.kind
  deadline_ne : v.recoveryDeadlineStep ≠ none
  waits : v.recoveredAtStep = none
  agent : AgentOfContract contracts v

structure Grows (contracts : List BehavioralContract) (s s' : EnforcerState) : Prop where
  pending : ∀ key entry, s'.softPending.get? key = some entry →
    s.softPending.get? key = some entry
  violations : ∃ extra, s'.violations = s.violations ++ extra ∧
    ∀ v ∈ extra, AgentOfContract contracts v

theorem Grows.of_same {contracts : List BehavioralContract} {s s' : EnforcerState}
    (hpending : s'.softPending = s.softPending) (hviolations : s'.violations = s.violations) :
    Grows contracts s s' := by
  refine ⟨?_, [], ?_, List.forall_mem_nil _⟩
  · intro key entry hget
    rw [← hpending]
    exact hget
  · rw [hviolations, List.append_nil]

theorem Grows.trans {contracts : List BehavioralContract} {s s' s'' : EnforcerState}
    (h : Grows contracts s s') (h' : Grows contracts s' s'') : Grows contracts s s'' := by
  obtain ⟨extra, hextra, hagent⟩ := h.violations
  obtain ⟨extra', hextra', hagent'⟩ := h'.violations
  refine ⟨fun key entry hget => h.pending key entry (h'.pending key entry hget),
    extra ++ extra', ?_, ?_⟩
  · rw [hextra', hextra, List.append_assoc]
  · intro v hv
    rcases List.mem_append.mp hv with hv | hv
    · exact hagent v hv
    · exact hagent' v hv

theorem Grows.pop (contracts : List BehavioralContract) (key : Key) (s : EnforcerState) :
    Grows contracts s { s with softPending := s.softPending.pop key } := by
  refine ⟨?_, [], (List.append_nil _).symm, List.forall_mem_nil _⟩
  intro key' entry' hget
  simp only [Dict.get?_pop] at hget
  split at hget
  · cases hget
  · exact hget

inductive ClauseEffect (contracts : List BehavioralContract) (key : Key) (step : ℕ)
    (s s' : EnforcerState) : Prop where
  | grows (hpending : s'.softPending = s.softPending) (hgrows : Grows contracts s s')
  | registers (entry : SoftRecoveryEntry) (extra : List ContractViolation)
      (hfree : s.softPending.get? key = none)
      (hentry : EntryOf contracts key entry)
      (hpending : s'.softPending = s.softPending.set key entry)
      (hviolations : s'.violations = s.violations ++ extra)
      (hextra : extra = [] ∨ ∃ v, extra = [v] ∧ RecordOf contracts key v)
  | discharges (entry : SoftRecoveryEntry)
      (hget : s.softPending.get? key = some entry)
      (hpending : s'.softPending = s.softPending.pop key)
      (hviolations : s'.violations = (markFirst entry step s.violations.reverse).reverse)

theorem recorded_eq (check : Check) (v : ContractViolation) :
    ∃ eventId, recorded check v = { v with ledgerEventId := eventId } := by
  unfold recorded
  cases check.ledger with
  | none => exact ⟨v.ledgerEventId, rfl⟩
  | some append =>
    simp only
    cases append v with
    | error e => exact ⟨v.ledgerEventId, rfl⟩
    | ok eventId => exact ⟨some eventId, rfl⟩

section Effects

variable {contracts : List BehavioralContract} (hnodup : (contracts.map (·.contractId)).Nodup)
variable (check : Check) {c : BehavioralContract} (hc : c ∈ contracts)
include hnodup hc

theorem recorded_agent {v : ContractViolation} (hid : v.contractId = c.contractId)
    (hagent : v.agentId = c.agentId) : AgentOfContract contracts (recorded check v) := by
  intro c' hc' hid'
  obtain ⟨eventId, heq⟩ := recorded_eq check v
  rw [heq] at hid' ⊢
  rw [List.inj_on_of_nodup_map hnodup hc' hc (hid'.trans hid)]
  exact hagent.symm

theorem commitViolation_grows {v : ContractViolation} (s : EnforcerState)
    (hid : v.contractId = c.contractId) (hagent : v.agentId = c.agentId) :
    Grows contracts s (commitViolation check v s).2 := by
  rcases commitViolation_violations check v s with h | h
  · exact .of_same (commitViolation_softPending check v s) h
  · refine ⟨?_, [recorded check v], h, ?_⟩
    · intro key entry hget
      rw [commitViolation_softPending] at hget
      exact hget
    · intro w hw
      rw [List.mem_singleton.mp hw]
      exact recorded_agent hnodup check hc hid hagent

omit hnodup hc in
theorem commitViolation_registers {key : Key} {entry : SoftRecoveryEntry} {v : ContractViolation}
    {step : ℕ} {s : EnforcerState} (hfree : s.softPending.get? key = none)
    (hentry : EntryOf contracts key entry) (hrecord : RecordOf contracts key (recorded check v)) :
    ClauseEffect contracts key step s
      (commitViolation check v { s with softPending := s.softPending.set key entry }).2 := by
  have hpending := commitViolation_softPending check v
    { s with softPending := s.softPending.set key entry }
  rcases commitViolation_violations check v
    { s with softPending := s.softPending.set key entry } with h | h
  · exact .registers entry [] hfree hentry hpending (h.trans (List.append_nil _).symm) (.inl rfl)
  · exact .registers entry _ hfree hentry hpending h (.inr ⟨_, rfl, hrecord⟩)

theorem handleSoftViolation_effect {clause : Clause} {step : ℕ} {s : EnforcerState} :
    ClauseEffect contracts ⟨check.agentId, c.contractId, clause.kind, clause.index⟩ step s
      (handleSoftViolation check c clause step s).2 := by
  unfold handleSoftViolation
  simp only
  cases hget : s.softPending.get? ⟨check.agentId, c.contractId, clause.kind, clause.index⟩ with
  | some entry =>
    rw [Option.isSome_some, if_pos rfl]
    exact .grows rfl (.of_same rfl rfl)
  | none =>
    rw [Option.isSome_none, if_neg Bool.false_ne_true]
    apply commitViolation_registers check hget ⟨rfl, rfl, rfl, c, hc, rfl⟩
    obtain ⟨eventId, heq⟩ := recorded_eq check (newViolation check c clause.ltl clause.kind true
      step (some (step + c.recoveryWindowK)) none none)
    have hagent := recorded_agent hnodup check hc
      (v := newViolation check c clause.ltl clause.kind true step
        (some (step + c.recoveryWindowK)) none none) rfl rfl
    rw [heq] at hagent ⊢
    exact ⟨rfl, rfl, Option.some_ne_none _, rfl, hagent⟩

theorem applyClause_effect {clause : Clause} {step : ℕ} {value : Bool} {s : EnforcerState} :
    ClauseEffect contracts ⟨check.agentId, c.contractId, clause.kind, clause.index⟩ step s
      (applyClause check c clause step value s).2 := by
  unfold applyClause
  split
  · unfold dischargeRecovery
    split
    · exact .grows rfl (.of_same rfl rfl)
    · rename_i entry hget
      split
      · exact .grows rfl (.of_same rfl rfl)
      · exact .discharges entry hget rfl rfl
  · exact handleSoftViolation_effect hnodup check hc
  · exact .grows rfl (.of_same rfl rfl)
  · exact .grows (commitViolation_softPending ..) (commitViolation_grows hnodup check hc s rfl rfl)

end Effects

structure NotedOk (contracts : List BehavioralContract) (n : Noted) : Prop where
  agent : ∀ v ∈ n.state.violations, AgentOfContract contracts v
  entry : ∀ key entry, n.state.softPending.get? key = some entry → EntryOf contracts key entry
  origin : ∀ key idx, n.state.softPending.get? key ≠ none → n.origin key = some idx →
    ∃ v, n.state.violations[idx]? = some v ∧ v.contractId = key.contractId ∧
      v.violatedClause = key.kind ∧ v.recoveryDeadlineStep ≠ none
  distinct : ∀ key key' idx, n.state.softPending.get? key ≠ none →
    n.state.softPending.get? key' ≠ none → n.origin key = some idx → n.origin key' = some idx →
    key = key'
  -- while every discharge has hit its own record, no pending one has lost its own
  waiting : (∀ d ∈ n.discharged, d.MarksOwnRecord) → ∀ key idx v,
    n.state.softPending.get? key ≠ none → n.origin key = some idx →
    n.state.violations[idx]? = some v → v.recoveredAtStep = none
  findable : ∀ d ∈ n.discharged, d.MarksOwnRecord → d.Findable contracts
  marks : (∀ d ∈ n.discharged, d.Findable contracts) → ∀ d ∈ n.discharged, d.MarksOwnRecord

theorem notedOk_initial (contracts : List BehavioralContract) : NotedOk contracts Noted.initial where
  agent := List.forall_mem_nil _
  entry := fun _ _ h => nomatch h
  origin := fun _ _ h => absurd rfl h
  distinct := fun _ _ _ h => absurd rfl h
  waiting := fun _ _ _ _ h => absurd rfl h
  findable := List.forall_mem_nil _
  marks := fun _ => List.forall_mem_nil _

section Preservation

variable {contracts : List BehavioralContract} {n : Noted} {s' : EnforcerState}

theorem NotedOk.grows (h : NotedOk contracts n) (hgrows : Grows contracts n.state s') :
    NotedOk contracts { n with state := s' } := by
  obtain ⟨hpending, extra, hviolations, hagent⟩ := hgrows
  have hstill : ∀ key, s'.softPending.get? key ≠ none → n.state.softPending.get? key ≠ none := by
    intro key hkey
    obtain ⟨entry, hentry⟩ := Option.ne_none_iff_exists'.mp hkey
    rw [hpending key entry hentry]
    exact Option.some_ne_none _
  have hkept : ∀ key idx, s'.softPending.get? key ≠ none → n.origin key = some idx →
      s'.violations[idx]? = n.state.violations[idx]? := by
    intro key idx hkey hidx
    obtain ⟨v, hv, -⟩ := h.origin key idx (hstill key hkey) hidx
    rw [hviolations, List.getElem?_append_left (List.getElem?_eq_some_iff.mp hv).1]
  refine ⟨?_, ?_, ?_, ?_, ?_, h.findable, h.marks⟩
  · intro v hv
    simp only [hviolations] at hv
    rcases List.mem_append.mp hv with hv | hv
    · exact h.agent v hv
    · exact hagent v hv
  · intro key entry hentry
    exact h.entry key entry (hpending key entry hentry)
  · intro key idx hkey hidx
    simp only [hkept key idx hkey hidx]
    exact h.origin key idx (hstill key hkey) hidx
  · intro key key' idx hkey hkey' hidx hidx'
    exact h.distinct key key' idx (hstill key hkey) (hstill key' hkey') hidx hidx'
  · intro hlog key idx v hkey hidx hv
    simp only [hkept key idx hkey hidx] at hv
    exact h.waiting hlog key idx v (hstill key hkey) hidx hv

theorem NotedOk.registers (h : NotedOk contracts n) {key : Key} {entry : SoftRecoveryEntry}
    {extra : List ContractViolation} (hentry : EntryOf contracts key entry)
    (hpending : s'.softPending = n.state.softPending.set key entry)
    (hviolations : s'.violations = n.state.violations ++ extra)
    (hextra : extra = [] ∨ ∃ v, extra = [v] ∧ RecordOf contracts key v) :
    NotedOk contracts { n with
      state := s'
      origin := Function.update n.origin key
        (if n.state.violations.length < s'.violations.length
          then some n.state.violations.length else none) } := by
  have hold : ∀ key', key' ≠ key → s'.softPending.get? key' = n.state.softPending.get? key' := by
    intro key' hne
    rw [hpending, Dict.get?_set, if_neg hne]
  have hkept : ∀ (idx : ℕ) (v : ContractViolation), n.state.violations[idx]? = some v →
      s'.violations[idx]? = some v := by
    intro idx v hv
    rw [hviolations, List.getElem?_append_left (List.getElem?_eq_some_iff.mp hv).1, hv]
  -- the new record, when there is one, stands behind all others
  have hnew : ∀ idx, (if n.state.violations.length < s'.violations.length
      then some n.state.violations.length else none) = some idx →
      idx = n.state.violations.length ∧
        ∃ v, s'.violations[idx]? = some v ∧ RecordOf contracts key v := by
    intro idx hidx
    split at hidx
    · rename_i hlt
      obtain rfl := Option.some.inj hidx
      rcases hextra with rfl | ⟨v, rfl, hv⟩
      · rw [hviolations, List.append_nil] at hlt
        exact absurd hlt (lt_irrefl _)
      · refine ⟨rfl, v, ?_, hv⟩
        rw [hviolations, List.getElem?_concat_length]
    · cases hidx
  have hbehind : ∀ key' idx, key' ≠ key → s'.softPending.get? key' ≠ none →
      n.origin key' = some idx → idx < n.state.violations.length := by
    intro key' idx hne hkey' hidx
    obtain ⟨v, hv, -⟩ := h.origin key' idx (hold key' hne ▸ hkey') hidx
    exact (List.getElem?_eq_some_iff.mp hv).1
  refine ⟨?_, ?_, ?_, ?_, ?_, h.findable, h.marks⟩
  · intro v hv
    simp only [hviolations] at hv
    rcases List.mem_append.mp hv with hv | hv
    · exact h.agent v hv
    · rcases hextra with rfl | ⟨w, rfl, hw⟩
      · cases hv
      · rw [List.mem_singleton.mp hv]
        exact hw.agent
  · intro key' entry' hget
    by_cases hne : key' = key
    · simp only [hpending, hne, Dict.get?_set, if_true] at hget
      rw [← Option.some.inj hget, hne]
      exact hentry
    · exact h.entry key' entry' ((hold key' hne).symm.trans hget)
  · intro key' idx hkey' hidx
    by_cases hne : key' = key
    · subst hne
      simp only [Function.update_self] at hidx
      obtain ⟨-, v, hv, hrecord⟩ := hnew idx hidx
      exact ⟨v, hv, hrecord.contractId_eq, hrecord.violatedClause_eq, hrecord.deadline_ne⟩
    · simp only [Function.update_of_ne hne] at hidx
      obtain ⟨v, hv, hrest⟩ := h.origin key' idx (hold key' hne ▸ hkey') hidx
      exact ⟨v, hkept idx v hv, hrest⟩
  · intro key₁ key₂ idx hkey₁ hkey₂ hidx₁ hidx₂
    by_cases hne₁ : key₁ = key
    · by_cases hne₂ : key₂ = key
      · rw [hne₁, hne₂]
      · simp only [hne₁, Function.update_self] at hidx₁
        simp only [Function.update_of_ne hne₂] at hidx₂
        exact absurd (hnew idx hidx₁).1 (hbehind key₂ idx hne₂ hkey₂ hidx₂).ne
    · simp only [Function.update_of_ne hne₁] at hidx₁
      by_cases hne₂ : key₂ = key
      · simp only [hne₂, Function.update_self] at hidx₂
        exact absurd (hnew idx hidx₂).1 (hbehind key₁ idx hne₁ hkey₁ hidx₁).ne
      · simp only [Function.update_of_ne hne₂] at hidx₂
        exact h.distinct key₁ key₂ idx (hold key₁ hne₁ ▸ hkey₁) (hold key₂ hne₂ ▸ hkey₂) hidx₁ hidx₂
  · intro hlog key' idx v hkey' hidx hv
    by_cases hne : key' = key
    · subst hne
      simp only [Function.update_self] at hidx
      obtain ⟨-, w, hw, hrecord⟩ := hnew idx hidx
      rw [Option.some.inj (hv.symm.trans hw)]
      exact hrecord.waits
    · simp only [Function.update_of_ne hne] at hidx
      have hpend : n.state.softPending.get? key' ≠ none := hold key' hne ▸ hkey'
      obtain ⟨w, hw, -⟩ := h.origin key' idx hpend hidx
      rw [Option.some.inj (hv.symm.trans (hkept idx w hw))]
      exact h.waiting hlog key' idx w hpend hidx hw

def ContractViolation.unmarked (v : ContractViolation) : ContractViolation :=
  { v with recoveredAtStep := none }

theorem markFirst_unmarked (entry : SoftRecoveryEntry) (t : ℕ) (vs : List ContractViolation) :
    (markFirst entry t vs).map (·.unmarked) = vs.map (·.unmarked) := by
  induction vs with
  | nil => rfl
  | cons v rest ih =>
    unfold markFirst
    split
    · rfl
    · rw [List.map_cons, List.map_cons, ih]

theorem unmarked_fields {v w : ContractViolation} (h : v.unmarked = w.unmarked) :
    v.contractId = w.contractId ∧ v.agentId = w.agentId ∧ v.violatedClause = w.violatedClause ∧
      v.recoveryDeadlineStep = w.recoveryDeadlineStep :=
  ⟨congrArg (·.contractId) h, congrArg (·.agentId) h, congrArg (·.violatedClause) h,
    congrArg (·.recoveryDeadlineStep) h⟩

theorem NotedOk.discharges (h : NotedOk contracts n) {key : Key} {entry : SoftRecoveryEntry}
    (step : ℕ) (hget : n.state.softPending.get? key = some entry)
    (hpending : s'.softPending = n.state.softPending.pop key)
    (hviolations : s'.violations = (markFirst entry step n.state.violations.reverse).reverse) :
    NotedOk contracts { n with
      state := s'
      discharged := n.discharged ++
        [⟨key, step, n.origin key, n.state.violations, s'.violations⟩] } := by
  have hkey : n.state.softPending.get? key ≠ none := hget ▸ Option.some_ne_none _
  have hold : ∀ key', s'.softPending.get? key' ≠ none →
      key' ≠ key ∧ s'.softPending.get? key' = n.state.softPending.get? key' := by
    intro key' hkey'
    rw [hpending, Dict.get?_pop] at hkey' ⊢
    split at hkey'
    · exact absurd rfl hkey'
    · rename_i hne
      exact ⟨hne, if_neg hne⟩
  have hmap : s'.violations.map (·.unmarked) = n.state.violations.map (·.unmarked) := by
    rw [hviolations, List.map_reverse, markFirst_unmarked, List.map_reverse, List.reverse_reverse]
  have hentry := h.entry key entry hget
  refine ⟨?_, ?_, ?_, ?_, ?_, ?_, ?_⟩
  · intro v hv
    have hmem : v.unmarked ∈ n.state.violations.map (·.unmarked) :=
      hmap ▸ List.mem_map_of_mem hv
    obtain ⟨w, hw, hsame⟩ := List.mem_map.mp hmem
    obtain ⟨hid, hagent, -, -⟩ := unmarked_fields hsame
    intro c hc hcid
    rw [← hagent]
    exact h.agent w hw c hc (hcid.trans hid.symm)
  · intro key' entry' hget'
    have hkey' : s'.softPending.get? key' ≠ none := by
      rw [hget']
      exact Option.some_ne_none _
    exact h.entry key' entry' ((hold key' hkey').2.symm.trans hget')
  · intro key' idx hkey' hidx
    obtain ⟨v, hv, hid, hkind, hdeadline⟩ :=
      h.origin key' idx ((hold key' hkey').2 ▸ hkey') hidx
    have hat : (s'.violations.map (·.unmarked))[idx]? = some v.unmarked := by
      rw [hmap, List.getElem?_map, hv]
      rfl
    rw [List.getElem?_map, Option.map_eq_some_iff] at hat
    obtain ⟨w, hw, hsame⟩ := hat
    obtain ⟨hid', -, hkind', hdeadline'⟩ := unmarked_fields hsame
    exact ⟨w, hw, hid'.trans hid, hkind'.trans hkind, hdeadline' ▸ hdeadline⟩
  · intro key₁ key₂ idx hkey₁ hkey₂ hidx₁ hidx₂
    exact h.distinct key₁ key₂ idx ((hold key₁ hkey₁).2 ▸ hkey₁) ((hold key₂ hkey₂).2 ▸ hkey₂)
      hidx₁ hidx₂
  · intro hlog key' idx v hkey' hidx hv
    obtain ⟨hne, hsame⟩ := hold key' hkey'
    obtain ⟨own, w, hown, -, -, hset⟩ := hlog _ (List.mem_append_right _ (List.mem_singleton.mpr rfl))
    simp only at hown hset hv
    have hother : own ≠ idx := by
      rintro rfl
      exact hne (h.distinct key' key own (hsame ▸ hkey') hkey hidx hown)
    rw [hset, List.getElem?_set_ne hother] at hv
    exact h.waiting (fun d hd => hlog d (List.mem_append_left _ hd)) key' idx v (hsame ▸ hkey')
      hidx hv
  · intro d hd hmarks
    rcases List.mem_append.mp hd with hd | hd
    · exact h.findable d hd hmarks
    · obtain rfl := List.mem_singleton.mp hd
      exact findable_of_marksOwnRecord hentry h.agent hviolations hmarks
  · intro hlog
    have hbefore := h.marks fun d hd => hlog d (List.mem_append_left _ hd)
    intro d hd
    rcases List.mem_append.mp hd with hd | hd
    · exact hbefore d hd
    · obtain rfl := List.mem_singleton.mp hd
      refine marksOwnRecord_of_findable hentry h.agent hviolations ?_
        (hlog _ (List.mem_append_right _ (List.mem_singleton.mpr rfl)))
      intro idx hidx
      obtain ⟨v, hv, hid, hkind, hdeadline⟩ := h.origin key idx hkey hidx
      exact ⟨v, hv, hid, hkind, hdeadline, h.waiting hbefore key idx v hkey hidx hv⟩

end Preservation

section Steps

variable {compare : PyVal → Op → Option Str → Except PyErr Bool} {enf : ContractEnforcer}
variable {check : Check} {n : Noted}

theorem noteClause_ok {c : BehavioralContract} {clause : Clause} {step : ℕ} {value : Bool}
    (hc : c ∈ enf.contracts) (h : NotedOk enf.contracts n) :
    NotedOk enf.contracts (noteClause check c clause step value n) := by
  have heffect : ClauseEffect enf.contracts
      ⟨check.agentId, c.contractId, clause.kind, clause.index⟩ step n.state
      (applyClause check c clause step value n.state).2 :=
    applyClause_effect enf.ids_nodup check hc
  unfold noteClause
  simp only
  generalize (applyClause check c clause step value n.state).2 = s' at heffect ⊢
  cases heffect with
  | grows hpending hgrows =>
    rw [hpending]
    split
    · rename_i hfalse htrue
      rw [hfalse] at htrue
      cases htrue
    · rename_i htrue hfalse
      rw [htrue] at hfalse
      cases hfalse
    · exact h.grows hgrows
  | registers entry extra hfree hentry hpending hviolations hextra =>
    have hnow := h.registers hentry hpending hviolations hextra
    have hset : (s'.softPending.get?
        ⟨check.agentId, c.contractId, clause.kind, clause.index⟩).isSome = true := by
      rw [hpending, Dict.get?_set, if_pos rfl]
      rfl
    rw [hfree, hset]
    exact hnow
  | discharges entry hget hpending hviolations =>
    have hnow := h.discharges step hget hpending hviolations
    have hpop : (s'.softPending.get?
        ⟨check.agentId, c.contractId, clause.kind, clause.index⟩).isSome = false := by
      rw [hpending, Dict.get?_pop, if_pos rfl]
      rfl
    rw [hget, hpop]
    exact hnow

variable (compare) in
theorem noteAgenda_ok {step : ℕ} {xs : List (BehavioralContract × Clause)}
    (hxs : ∀ x ∈ xs, x.1 ∈ enf.contracts) (h : NotedOk enf.contracts n) :
    NotedOk enf.contracts (noteAgenda compare check step xs n) := by
  induction xs generalizing n with
  | nil => exact h
  | cons x rest ih =>
    obtain ⟨c, clause⟩ := x
    simp only [noteAgenda]
    split
    · exact h
    · rename_i value _
      have hnext : NotedOk enf.contracts (noteClause check c clause step value n) :=
        noteClause_ok (hxs (c, clause) (List.mem_cons_self ..)) h
      split
      · exact hnext
      · exact ih (fun x hx => hxs x (List.mem_cons_of_mem _ hx)) hnext

variable (enf check) in
theorem sweepKeys_grows (step : ℕ) (keys : List Key) (s : EnforcerState) :
    Grows enf.contracts s (sweepKeys enf.contracts check step keys s).2 := by
  induction keys generalizing s with
  | nil => exact .of_same rfl rfl
  | cons key rest ih =>
    cases hget : s.softPending.get? key with
    | none =>
      simp only [sweepKeys, hget]
      exact .of_same rfl rfl
    | some entry =>
      have hpop := Grows.pop enf.contracts key s
      cases hfind : enf.contracts.find? (fun c => c.contractId = entry.contractId) with
      | none =>
        simp only [sweepKeys, hget, hfind]
        exact hpop.trans (ih _)
      | some c =>
        have hcommit : Grows enf.contracts s (commitViolation check
            (escalationRecord check c entry step)
            { s with softPending := s.softPending.pop key }).2 :=
          hpop.trans (commitViolation_grows enf.ids_nodup check (List.mem_of_find?_eq_some hfind)
            _ rfl rfl)
        simp only [sweepKeys, hget, hfind]
        cases hresult : commitViolation check (escalationRecord check c entry step)
            { s with softPending := s.softPending.pop key } with
        | mk result s' =>
          rw [hresult] at hcommit
          cases result with
          | error e => exact hcommit
          | ok u => exact hcommit.trans (ih s')

variable (compare) in
theorem noteCheck_ok (h : NotedOk enf.contracts n) :
    NotedOk enf.contracts (noteCheck compare enf check n) := by
  have hstart : NotedOk enf.contracts
      { n with state := { n.state with stepIndex := n.state.stepIndex + 1 } } :=
    h.grows (.of_same rfl rfl)
  have hwalk : NotedOk enf.contracts (noteAgenda compare check (n.state.stepIndex + 1)
      (agenda enf check) { n with state := { n.state with stepIndex := n.state.stepIndex + 1 } }) :=
    noteAgenda_ok compare (fun x hx => mem_agenda enf check hx) hstart
  apply hwalk.grows
  rw [noteAgenda_state]
  by_cases hagenda : agendaReturns compare enf check n.state
  · obtain ⟨cHard, cSoft, hforget⟩ := check_of_agenda_ok compare enf check n.state hagenda
    have hcheck := congrArg Prod.snd hforget
    simp only [forget] at hcheck
    rw [hcheck]
    have hscores : Grows enf.contracts (afterAgenda compare enf check n.state)
        { afterAgenda compare enf check n.state with
          cHardHistory := cHard, cSoftHistory := cSoft } := .of_same rfl rfl
    exact hscores.trans (sweepKeys_grows enf check _ _ _)
  · rw [(check_of_agenda_error compare enf check n.state hagenda).2]
    exact .of_same rfl rfl

variable (compare) in
theorem noteRun_ok (checks : List Check) (h : NotedOk enf.contracts n) :
    NotedOk enf.contracts (noteRun compare enf checks n) := by
  induction checks generalizing n with
  | nil => exact h
  | cons check rest ih => exact ih (noteCheck_ok compare h)

end Steps

/-- In a run from a fresh enforcer every discharge marks the record of its own
obligation exactly if every discharge finds that record from the back. -/
theorem discharges_mark_own_records_iff
    (compare : PyVal → Op → Option Str → Except PyErr Bool) (enf : ContractEnforcer)
    (checks : List Check) :
    (noteRun compare enf checks Noted.initial).state =
        enf.runChecks compare checks initialState ∧
      ((∀ d ∈ (noteRun compare enf checks Noted.initial).discharged, d.MarksOwnRecord) ↔
        ∀ d ∈ (noteRun compare enf checks Noted.initial).discharged, d.Findable enf.contracts) := by
  have hok := noteRun_ok compare checks (notedOk_initial enf.contracts)
  refine ⟨noteRun_state compare enf checks Noted.initial, ?_, hok.marks⟩
  intro hmarks d hd
  exact hok.findable d hd (hmarks d hd)

/-- One wildcard contract with the soft invariant `kind:ok`. -/
def wildcardEnforcer : ContractEnforcer where
  contracts := [softContract (txt "a") [] [txt "kind:ok"] (txt "*") 3]
  parsed := [⟨none, none, [], [.atom (txt "kind:ok")], [], []⟩]
  contracts_ne := List.cons_ne_nil _ _
  ids_nodup := by decide
  parsed_eq := by decide +kernel

/-- The record carries the agent id `*`, the obligation that of the caller: it
is discharged and no record changes. -/
theorem wildcard_discharge_marks_no_record :
    ∃ d ∈ (noteRun noMatch wildcardEnforcer
        [checkOf (txt "bad") none, checkOf (txt "ok") none] Noted.initial).discharged,
      d.after = d.before ∧ ¬ d.MarksOwnRecord := by
  have hsame : ((noteRun noMatch wildcardEnforcer
      [checkOf (txt "bad") none, checkOf (txt "ok") none] Noted.initial).discharged.any
        fun d => d.after = d.before) = true := by
    with_unfolding_all decide
  obtain ⟨d, hd, hsame⟩ := List.any_eq_true.mp hsame
  rw [decide_eq_true_eq] at hsame
  exact ⟨d, hd, hsame, fun hmarks => hmarks.changes hsame⟩

end TexGovernance.Contracts
