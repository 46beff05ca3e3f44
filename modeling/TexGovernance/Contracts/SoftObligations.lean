import TexGovernance.Contracts.EnforcerSteps

/-!
# The life of a soft obligation over a run

Runs of `check_pre` and `check_post` on a fresh enforcer. The check at position `i` of a run
happens at step `i + 1`.
-/

namespace TexGovernance.Contracts
open PyStr PyDict

section Run

variable (compare : PyVal → Op → Option Str → Except PyErr Bool)
variable (enf : ContractEnforcer) (checks : List Check)

def stateAfter (n : ℕ) : EnforcerState := enf.runChecks compare (checks.take n) initialState

theorem stateAfter_succ {n : ℕ} {check : Check} (h : checks[n]? = some check) :
    stateAfter compare enf checks (n + 1) =
      (enf.check compare check (stateAfter compare enf checks n)).2 := by
  unfold stateAfter ContractEnforcer.runChecks
  rw [List.take_add_one, h, Option.toList_some, List.foldl_append]
  rfl

def EvaluatesTo (i : ℕ) (key : Key) (value : Bool) : Prop :=
  ∃ check, checks[i]? = some check ∧ observed compare check key (agenda enf check) = some value

def ReturnsAt (i : ℕ) : Prop :=
  ∃ check r, checks[i]? = some check ∧
    (enf.check compare check (stateAfter compare enf checks i)).1 = .ok r

/-- The check at position `n` registers an obligation for `key`. -/
def RegistersAt (n : ℕ) (key : Key) : Prop :=
  (stateAfter compare enf checks n).softPending.get? key = none ∧
    ∃ entry, (stateAfter compare enf checks (n + 1)).softPending.get? key = some entry

def PendingSince (n window : ℕ) (key : Key) (i : ℕ) : Prop :=
  ∃ entry, (stateAfter compare enf checks i).softPending.get? key = some entry ∧
    entry.startedAtStep = n + 1 ∧ entry.deadlineStep = n + 1 + window

/-- The check at position `t` adds, behind the records of its own clauses (none
of which is an escalation), one block record for each key of a list without
repetitions, and `key` is in the list. -/
def EscalatesOnce (t : ℕ) (key : Key) : Prop :=
  ∃ check keys records, checks[t]? = some check ∧ keys.Nodup ∧ key ∈ keys ∧
    (stateAfter compare enf checks (t + 1)).violations =
      (afterAgenda compare enf check (stateAfter compare enf checks t)).violations ++ records ∧
    List.Forall₂
      (IsEscalation (afterAgenda compare enf check (stateAfter compare enf checks t)) (t + 1))
      keys records ∧
    ∀ v ∈ (afterAgenda compare enf check (stateAfter compare enf checks t)).violations,
      v.stepIndex = t + 1 → v.severity = .block → v.recoveryDeadlineStep = none

/-- How the obligation that position `n` registered for `key` has fared at the
end of the run. -/
def EndsAs (n window : ℕ) (key : Key) : Obligation.Ending → Prop
  | .discharged t =>
      n < t ∧ t < checks.length ∧ t + 1 ≤ n + 1 + window ∧ EvaluatesTo compare enf checks t key true ∧
      (∀ j, n < j → j < t → ¬ EvaluatesTo compare enf checks j key true) ∧
      (∀ j, n < j → j ≤ t → PendingSince compare enf checks n window key j) ∧
      (stateAfter compare enf checks (t + 1)).softPending.get? key = none
  | .escalated t =>
      n < t ∧ t < checks.length ∧ n + 1 + window < t + 1 ∧ ReturnsAt compare enf checks t ∧
      (∀ j, n < j → j < t → n + 1 + window < j + 1 → ¬ ReturnsAt compare enf checks j) ∧
      (∀ j, n < j → j < t → j + 1 ≤ n + 1 + window → ¬ EvaluatesTo compare enf checks j key true) ∧
      (∀ j, n < j → j ≤ t → PendingSince compare enf checks n window key j) ∧
      (stateAfter compare enf checks (t + 1)).softPending.get? key = none ∧
      EscalatesOnce compare enf checks t key
  | .pending =>
      (∀ j, n < j → j < checks.length → n + 1 + window < j + 1 → ¬ ReturnsAt compare enf checks j) ∧
      (∀ j, n < j → j < checks.length → j + 1 ≤ n + 1 + window →
        ¬ EvaluatesTo compare enf checks j key true) ∧
      (∀ j, n < j → j ≤ checks.length → PendingSince compare enf checks n window key j)

def observation (key : Key) (i : ℕ) : Obligation.Obs :=
  match checks[i]? with
  | none => ⟨none, false⟩
  | some check => ⟨observed compare check key (agenda enf check), evaluatesAll compare enf check⟩

variable {compare enf checks}

theorem stateAfter_pendingOk (n : ℕ) :
    PendingOk enf.contracts (stateAfter compare enf checks n) :=
  runChecks_pendingOk (initialState_pendingOk enf.contracts)

theorem evaluatesTo_iff (key : Key) (i : ℕ) (value : Bool) :
    EvaluatesTo compare enf checks i key value ↔
      (observation compare enf checks key i).value = some value := by
  unfold EvaluatesTo observation
  cases checks[i]? with
  | none =>
    constructor
    · rintro ⟨check, h, -⟩
      cases h
    · intro h
      cases h
  | some check =>
    constructor
    · rintro ⟨check', h, hvalue⟩
      rw [Option.some.inj h]
      exact hvalue
    · exact fun h => ⟨check, rfl, h⟩

theorem pendingSince_iff (n window : ℕ) (key : Key) (i : ℕ) :
    PendingSince compare enf checks n window key i ↔
      token (stateAfter compare enf checks i) key = some ⟨n + 1, n + 1 + window⟩ := by
  unfold PendingSince token
  rw [Option.map_eq_some_iff]
  simp only [Obligation.Token.mk.injEq]

section Accepting

variable (hledger : ∀ check ∈ checks, LedgerAccepts check)
include hledger

theorem stateAfter_stepIndex {n : ℕ} (h : n ≤ checks.length) :
    (stateAfter compare enf checks n).stepIndex = n := by
  induction n with
  | zero => rfl
  | succ n ih =>
    have hcheck : checks[n]? = some (checks.get ⟨n, h⟩) := List.getElem?_eq_getElem h
    rw [stateAfter_succ compare enf checks hcheck,
      check_stepIndex (hledger _ (List.get_mem checks ⟨n, h⟩)), ih (Nat.le_of_succ_le h)]

theorem returnsAt_iff (key : Key) (i : ℕ) :
    ReturnsAt compare enf checks i ↔ (observation compare enf checks key i).sweeps = true := by
  unfold ReturnsAt observation
  cases hcheck : checks[i]? with
  | none =>
    constructor
    · rintro ⟨check, r, h, -⟩
      cases h
    · intro h
      cases h
  | some check =>
    have haccepts := hledger check (List.mem_of_getElem? hcheck)
    rw [← check_returns_iff haccepts (stateAfter compare enf checks i)]
    constructor
    · rintro ⟨check', r, h, hr⟩
      rw [Option.some.inj h]
      exact ⟨r, hr⟩
    · rintro ⟨r, hr⟩
      exact ⟨check, r, rfl, hr⟩

theorem token_eq_after {c : BehavioralContract} {key : Key} (hc : c ∈ enf.contracts)
    (hid : c.contractId = key.contractId) (n : ℕ) (hn : n ≤ checks.length) :
    token (stateAfter compare enf checks n) key =
      Obligation.after c.recoveryWindowK (observation compare enf checks key) n := by
  induction n with
  | zero => rfl
  | succ n ih =>
    have hcheck : checks[n]? = some (checks.get ⟨n, hn⟩) := List.getElem?_eq_getElem hn
    have hobs : observation compare enf checks key n =
        ⟨observed compare (checks.get ⟨n, hn⟩) key (agenda enf (checks.get ⟨n, hn⟩)),
          evaluatesAll compare enf (checks.get ⟨n, hn⟩)⟩ := by
      unfold observation
      rw [hcheck]
    rw [stateAfter_succ compare enf checks hcheck,
      check_token (hledger _ (List.get_mem checks ⟨n, hn⟩)) hc hid,
      stateAfter_stepIndex hledger (Nat.le_of_succ_le hn), ih (Nat.le_of_succ_le hn), ← hobs]
    rfl

theorem trail_stepIndex_le {n : ℕ} (h : n ≤ checks.length) :
    ∀ m ∈ trail (stateAfter compare enf checks n), m.stepIndex ≤ n := by
  induction n with
  | zero =>
    intro m hm
    cases hm
  | succ n ih =>
    have hcheck : checks[n]? = some (checks.get ⟨n, h⟩) := List.getElem?_eq_getElem h
    have haccepts := hledger _ (List.get_mem checks ⟨n, h⟩)
    have hstep : (stateAfter compare enf checks n).stepIndex = n :=
      stateAfter_stepIndex hledger (Nat.le_of_succ_le h)
    obtain ⟨extra, htrail, hextra⟩ :=
      afterAgenda_trail compare enf haccepts (stateAfter compare enf checks n)
    obtain ⟨records, hrecords, hsteps⟩ :=
      check_violations compare enf haccepts (stateAfter compare enf checks n)
    have hall : trail (stateAfter compare enf checks (n + 1)) =
        trail (stateAfter compare enf checks n) ++ extra ++ records.map (·.mark) := by
      rw [← htrail, stateAfter_succ compare enf checks hcheck]
      unfold trail
      rw [hrecords, List.map_append]
    rw [hstep] at hextra hsteps
    intro m hm
    rw [hall] at hm
    rcases List.mem_append.mp hm with hm | hm
    · rcases List.mem_append.mp hm with hm | hm
      · exact (ih (Nat.le_of_succ_le h) m hm).trans (Nat.le_succ n)
      · exact (hextra m hm).1.le
    · obtain ⟨r, hr, rfl⟩ := List.mem_map.mp hm
      exact (hsteps r hr).le

theorem afterAgenda_no_escalation {t : ℕ} {check : Check} (hcheck : checks[t]? = some check) :
    ∀ v ∈ (afterAgenda compare enf check (stateAfter compare enf checks t)).violations,
      v.stepIndex = t + 1 → v.severity = .block → v.recoveryDeadlineStep = none := by
  have ht : t < checks.length := (List.getElem?_eq_some_iff.mp hcheck).1
  obtain ⟨extra, htrail, hextra⟩ := afterAgenda_trail compare enf
    (hledger check (List.mem_of_getElem? hcheck)) (stateAfter compare enf checks t)
  intro v hv hstep hblock
  have hmem : v.mark ∈ trail (stateAfter compare enf checks t) ++ extra :=
    htrail ▸ List.mem_map_of_mem hv
  rcases List.mem_append.mp hmem with hold | hnew
  · have hle : v.stepIndex ≤ t := trail_stepIndex_le hledger ht.le v.mark hold
    omega
  · rcases (hextra v.mark hnew).2 with hnone | hwarn
    · exact hnone
    · have hwarn' : v.severity = .warn := hwarn
      rw [hblock] at hwarn'
      cases hwarn'

theorem escalatesOnce {t : ℕ} {key : Key} (hreturns : ReturnsAt compare enf checks t)
    (hexpired : ∀ check, checks[t]? = some check →
      key ∈ expiredKeys (t + 1) (afterAgenda compare enf check (stateAfter compare enf checks t))) :
    EscalatesOnce compare enf checks t key := by
  obtain ⟨check, r, hcheck, hr⟩ := hreturns
  have ht : t < checks.length := (List.getElem?_eq_some_iff.mp hcheck).1
  have haccepts := hledger check (List.mem_of_getElem? hcheck)
  have hstep : (stateAfter compare enf checks t).stepIndex = t :=
    stateAfter_stepIndex hledger ht.le
  have hagenda : agendaReturns compare enf check (stateAfter compare enf checks t) :=
    (agendaReturns_iff haccepts _).mpr ((check_returns_iff haccepts _).mp ⟨r, hr⟩)
  have hswept := (check_swept hagenda (.inl haccepts)).2
  have hpending : PendingOk enf.contracts
      (afterAgenda compare enf check (stateAfter compare enf checks t)) :=
    afterAgenda_pendingOk compare (stateAfter_pendingOk t)
  rw [hstep] at hswept
  have hviolations := hswept.violations_eq
  rw [← stateAfter_succ compare enf checks hcheck] at hviolations
  exact ⟨check, _, _, hcheck, expiredKeys_nodup _ _, hexpired check hcheck, hviolations,
    sweep_escalations hpending, afterAgenda_no_escalation hledger hcheck⟩

section Key

variable {c : BehavioralContract} {key : Key} (hc : c ∈ enf.contracts)
variable (hid : c.contractId = key.contractId)
include hc hid

theorem registers_of_registersAt {n : ℕ} (hn : n < checks.length)
    (h : RegistersAt compare enf checks n key) :
    Obligation.Registers c.recoveryWindowK (observation compare enf checks key) n := by
  have hbefore : token (stateAfter compare enf checks n) key =
      Obligation.after c.recoveryWindowK (observation compare enf checks key) n :=
    token_eq_after hledger hc hid n hn.le
  have hafter : token (stateAfter compare enf checks (n + 1)) key =
      Obligation.after c.recoveryWindowK (observation compare enf checks key) (n + 1) :=
    token_eq_after hledger hc hid (n + 1) hn
  obtain ⟨hfree, entry, hentry⟩ := h
  have hnone : Obligation.after c.recoveryWindowK (observation compare enf checks key) n = none := by
    rw [← hbefore]
    exact (token_eq_none_iff _ _).mpr hfree
  have hsome : Obligation.after c.recoveryWindowK (observation compare enf checks key) (n + 1) ≠
      none := by
    rw [← hafter]
    intro hno
    rw [(token_eq_none_iff _ _).mp hno] at hentry
    cases hentry
  exact Obligation.registers_of_opens hnone hsome

theorem openUntil_iff {n t : ℕ} (ht : t ≤ checks.length) :
    (∀ j, n < j → j ≤ t → PendingSince compare enf checks n c.recoveryWindowK key j) ↔
      Obligation.OpenUntil c.recoveryWindowK (observation compare enf checks key) n t := by
  unfold Obligation.OpenUntil
  constructor
  · intro h j hj hjt
    rw [← token_eq_after hledger hc hid j (hjt.trans ht)]
    exact (pendingSince_iff n _ key j).mp (h j hj hjt)
  · intro h j hj hjt
    rw [pendingSince_iff, token_eq_after hledger hc hid j (hjt.trans ht)]
    exact h j hj hjt

theorem closed_iff {t : ℕ} (ht : t < checks.length) :
    (stateAfter compare enf checks (t + 1)).softPending.get? key = none ↔
      Obligation.after c.recoveryWindowK (observation compare enf checks key) (t + 1) = none := by
  rw [← token_eq_after hledger hc hid (t + 1) ht, token_eq_none_iff]

theorem expired_of_open {n t : ℕ} {check : Check} (hcheck : checks[t]? = some check)
    (hpending : PendingSince compare enf checks n c.recoveryWindowK key t)
    (hlate : n + 1 + c.recoveryWindowK < t + 1) :
    key ∈ expiredKeys (t + 1)
      (afterAgenda compare enf check (stateAfter compare enf checks t)) := by
  have ht : t < checks.length := (List.getElem?_eq_some_iff.mp hcheck).1
  have hstep : (stateAfter compare enf checks t).stepIndex = t :=
    stateAfter_stepIndex hledger ht.le
  have hwalk : token (afterAgenda compare enf check (stateAfter compare enf checks t)) key =
      Obligation.evaluate c.recoveryWindowK ((stateAfter compare enf checks t).stepIndex + 1)
        (observed compare check key (agenda enf check))
        (token (stateAfter compare enf checks t) key) :=
    processAgenda_token (.inl (hledger check (List.mem_of_getElem? hcheck)))
      (agenda_distinct enf check) (agenda_window enf check hc hid)
  -- past the deadline the walk leaves the obligation to the sweep
  rw [hstep, (pendingSince_iff n _ key t).mp hpending, Obligation.evaluate_late hlate] at hwalk
  obtain ⟨entry, hentry, htoken⟩ := Option.map_eq_some_iff.mp hwalk
  refine mem_expiredKeys.mpr ⟨entry, hentry, ?_⟩
  rw [(Obligation.Token.mk.inj htoken).2]
  exact hlate

theorem endsAs_iff {n : ℕ} (e : Obligation.Ending) :
    EndsAs compare enf checks n c.recoveryWindowK key e ↔
      Obligation.EndsAs c.recoveryWindowK (observation compare enf checks key) n checks.length e := by
  cases e with
  | discharged t =>
    constructor
    · rintro ⟨hnt, ht, hintime, hvalue, hfirst, hopen, hclosed⟩
      refine ⟨ht, ⟨hnt, by omega, (evaluatesTo_iff key t true).mp hvalue⟩, ?_,
        (openUntil_iff hledger hc hid ht.le).mp hopen, (closed_iff hledger hc hid ht).mp hclosed⟩
      rintro j hj ⟨hnj, -, hj'⟩
      exact hfirst j hnj hj ((evaluatesTo_iff key j true).mpr hj')
    · rintro ⟨ht, ⟨hnt, hintime, hvalue⟩, hfirst, hopen, hclosed⟩
      refine ⟨hnt, ht, by omega, (evaluatesTo_iff key t true).mpr hvalue, ?_,
        (openUntil_iff hledger hc hid ht.le).mpr hopen, (closed_iff hledger hc hid ht).mpr hclosed⟩
      intro j hnj hj hj'
      exact hfirst j hj ⟨hnj, by omega, (evaluatesTo_iff key j true).mp hj'⟩
  | escalated t =>
    constructor
    · rintro ⟨hnt, ht, hlate, hreturns, hfirst, hnone, hopen, hclosed, -⟩
      refine ⟨ht, ⟨hnt, by omega, (returnsAt_iff hledger key t).mp hreturns⟩, ?_,
        (openUntil_iff hledger hc hid ht.le).mp hopen, (closed_iff hledger hc hid ht).mp hclosed⟩
      intro j hj
      constructor
      · rintro ⟨hnj, hjlate, hsweeps⟩
        exact hfirst j hnj hj (by omega) ((returnsAt_iff hledger key j).mpr hsweeps)
      · rintro ⟨hnj, hjtime, hj'⟩
        exact hnone j hnj hj (by omega) ((evaluatesTo_iff key j true).mpr hj')
    · rintro ⟨ht, ⟨hnt, hlate, hsweeps⟩, hfirst, hopen, hclosed⟩
      have hreturns : ReturnsAt compare enf checks t := (returnsAt_iff hledger key t).mpr hsweeps
      have hpending := (openUntil_iff hledger hc hid ht.le).mpr hopen
      refine ⟨hnt, ht, by omega, hreturns, ?_, ?_, hpending,
        (closed_iff hledger hc hid ht).mpr hclosed, escalatesOnce hledger hreturns ?_⟩
      · intro j hnj hj hjlate hj'
        exact (hfirst j hj).1 ⟨hnj, by omega, (returnsAt_iff hledger key j).mp hj'⟩
      · intro j hnj hj hjtime hj'
        exact (hfirst j hj).2 ⟨hnj, by omega, (evaluatesTo_iff key j true).mp hj'⟩
      · intro check hcheck
        exact expired_of_open hledger hc hid hcheck (hpending t hnt le_rfl) (by omega)
  | pending =>
    constructor
    · rintro ⟨hnone, hfalse, hopen⟩
      refine ⟨fun j hj => ⟨?_, ?_⟩, (openUntil_iff hledger hc hid le_rfl).mp hopen⟩
      · rintro ⟨hnj, hjlate, hsweeps⟩
        exact hnone j hnj hj (by omega) ((returnsAt_iff hledger key j).mpr hsweeps)
      · rintro ⟨hnj, hjtime, hj'⟩
        exact hfalse j hnj hj (by omega) ((evaluatesTo_iff key j true).mpr hj')
    · rintro ⟨hnone, hopen⟩
      refine ⟨?_, ?_, (openUntil_iff hledger hc hid le_rfl).mpr hopen⟩
      · intro j hnj hj hjlate hj'
        exact (hnone j hj).1 ⟨hnj, by omega, (returnsAt_iff hledger key j).mp hj'⟩
      · intro j hnj hj hjtime hj'
        exact (hnone j hj).2 ⟨hnj, by omega, (evaluatesTo_iff key j true).mp hj'⟩

end Key

theorem returned_no_stale_entry {n : ℕ} (h : ReturnsAt compare enf checks n) {key : Key}
    {entry : SoftRecoveryEntry}
    (hget : (stateAfter compare enf checks (n + 1)).softPending.get? key = some entry) :
    n + 1 ≤ entry.deadlineStep := by
  obtain ⟨check, r, hcheck, hr⟩ := h
  have hn : n < checks.length := (List.getElem?_eq_some_iff.mp hcheck).1
  have haccepts := hledger check (List.mem_of_getElem? hcheck)
  have hstep : (stateAfter compare enf checks n).stepIndex = n :=
    stateAfter_stepIndex hledger hn.le
  have hagenda : agendaReturns compare enf check (stateAfter compare enf checks n) :=
    (agendaReturns_iff haccepts _).mpr ((check_returns_iff haccepts _).mp ⟨r, hr⟩)
  have hswept := (check_swept hagenda (.inl haccepts)).2
  rw [stateAfter_succ compare enf checks hcheck, hswept.get?_eq key, hstep] at hget
  split at hget
  · cases hget
  · rename_i hnot
    by_contra hlate
    exact hnot (mem_expiredKeys.mpr ⟨entry, hget, not_le.mp hlate⟩)

end Accepting

/-- The life of soft obligations over every run of checks. Each registration
has exactly one ending: the first check within the window at which its formula
is evaluated and true discharges it, else the first check past the window that
returns escalates it, else it is pending. A key has at most one pending entry,
and a check that returns leaves no entry past its deadline. -/
theorem soft_obligation_lifecycle (compare : PyVal → Op → Option Str → Except PyErr Bool)
    (enf : ContractEnforcer) (checks : List Check)
    (hledger : ∀ check ∈ checks, LedgerAccepts check) :
    (∀ n < checks.length, ∀ key, RegistersAt compare enf checks n key →
      ∃ c ∈ enf.contracts, c.contractId = key.contractId ∧
        ∃! e, EndsAs compare enf checks n c.recoveryWindowK key e) ∧
    (∀ n, (stateAfter compare enf checks n).softPending.keys.Nodup) ∧
    (∀ n, ReturnsAt compare enf checks n → ∀ key entry,
      (stateAfter compare enf checks (n + 1)).softPending.get? key = some entry →
        n + 1 ≤ entry.deadlineStep) := by
  refine ⟨?_, fun n => (stateAfter compare enf checks n).softPending.nodup, ?_⟩
  · intro n hn key hregisters
    obtain ⟨entry, hentry⟩ := hregisters.2
    obtain ⟨c, hc, hid, -⟩ := (stateAfter_pendingOk (n + 1) key entry hentry).known
    refine ⟨c, hc, hid, ?_⟩
    simp only [endsAs_iff hledger hc hid]
    exact Obligation.lifecycle checks.length (registers_of_registersAt hledger hc hid hn hregisters)
  · exact fun n hreturns key entry hget => returned_no_stale_entry hledger hreturns hget

end Run

def softContract (contractId precondition : Str) (soft : List Str) (covered : Str) (window : ℕ) :
    BehavioralContract where
  contractId := contractId
  agentId := txt "*"
  preconditionLtl := precondition
  postconditionLtl := txt "true"
  invariantsLtl := []
  softInvariantsLtl := soft
  hardGovernanceLtl := []
  softGovernanceLtl := []
  coveredEventKinds := [covered]
  severityOnViolation := .block
  recoveryWindowK := window
  coveredEventKinds_ne := List.cons_ne_nil _ _

/-- Contract `b` has a precondition in an unknown namespace, so its evaluation
raises; the soft invariant of contract `a` is never met and has no window. -/
def strictEnforcer : ContractEnforcer where
  contracts := [softContract (txt "b") (txt "x:y") [] (txt "boom") 0,
    softContract (txt "a") [] [txt "false"] (txt "*") 0]
  parsed := [⟨some (.atom (txt "x:y")), none, [], [], [], []⟩,
    ⟨none, none, [], [.const false], [], []⟩]
  contracts_ne := List.cons_ne_nil _ _
  ids_nodup := by decide
  parsed_eq := rfl

def strictKey : Key := ⟨txt "agent", txt "a", .softInvariant, 0⟩

def checkOf (kind : Str) (ledger : Option (ContractViolation → Except PyErr Str)) : Check where
  phase := .pre
  agentId := txt "agent"
  event := ⟨kind, txt "agent", [], txt "2026-01-01T00:00:00+00:00", []⟩
  state := ⟨[], [], []⟩
  ledger := ledger

def noMatch (_ : PyVal) (_ : Op) (_ : Option Str) : Except PyErr Bool := .ok false

theorem soft_obligation_lifecycle_sample :
    RegistersAt noMatch strictEnforcer [checkOf (txt "ok") none, checkOf (txt "ok") none] 0
      strictKey ∧
    ∃ c ∈ strictEnforcer.contracts, c.contractId = strictKey.contractId ∧
      ∃! e, EndsAs noMatch strictEnforcer [checkOf (txt "ok") none, checkOf (txt "ok") none] 0
        c.recoveryWindowK strictKey e := by
  have hregisters : RegistersAt noMatch strictEnforcer
      [checkOf (txt "ok") none, checkOf (txt "ok") none] 0 strictKey := by
    refine ⟨by decide, Option.isSome_iff_exists.mp ?_⟩
    decide
  refine ⟨hregisters, (soft_obligation_lifecycle noMatch strictEnforcer
    [checkOf (txt "ok") none, checkOf (txt "ok") none] ?_).1 0 (by decide) strictKey hregisters⟩
  intro check hcheck append hledger
  have hnone : ∀ check ∈ [checkOf (txt "ok") none, checkOf (txt "ok") none],
      check.ledger = none := by
    simp [checkOf]
  rw [hnone check hcheck] at hledger
  cases hledger

/-- A check that raises does not get to its sweep: after step 2 an entry with
deadline 1 is pending. And a ledger that refuses the record of an escalation
loses it: the entry is gone, and the only record is the one of step 1. -/
theorem raised_check_leaves_stale_entry :
    (∃ entry, (stateAfter noMatch strictEnforcer
        [checkOf (txt "ok") none, checkOf (txt "boom") none] 2).softPending.get? strictKey =
          some entry ∧
      entry.deadlineStep < (stateAfter noMatch strictEnforcer
        [checkOf (txt "ok") none, checkOf (txt "boom") none] 2).stepIndex) ∧
    (stateAfter noMatch strictEnforcer
      [checkOf (txt "ok") none, checkOf (txt "ok") (some fun _ => .error .other)] 2).softPending.get?
        strictKey = none ∧
    (stateAfter noMatch strictEnforcer
      [checkOf (txt "ok") none, checkOf (txt "ok") (some fun _ => .error .other)] 2).violations.map
        (·.severity) = [.warn] := by
  refine ⟨⟨⟨txt "proposed:agent:ok:2026-01-01T00:00:00+00:00", 1, 1, txt "false", .softInvariant,
    txt "a", txt "agent"⟩, ?_, ?_⟩, ?_, ?_⟩
  · decide
  · decide
  · decide
  · decide

end TexGovernance.Contracts

namespace TexGovernance.Contracts
open PyStr PyDict

variable {compare : PyVal → Op → Option Str → Except PyErr Bool}
variable {check : Check}

/-- The check evaluates to false a soft formula of a contract that applies to
it, the one of `key`. -/
def SoftFalse (compare : PyVal → Op → Option Str → Except PyErr Bool) (enf : ContractEnforcer)
    (check : Check) (key : Key) : Prop :=
  ∃ cp ∈ enf.active check, ∃ clause ∈ clauses check.phase cp.1 cp.2,
    keyOf check.agentId cp.1 clause = some key ∧
    evaluateFinite compare check.context clause.formula = .ok false

/-- The obligation of `key` was registered at an earlier step than the next
one, and at the next step its window is not over. -/
def AwaitsRecovery (contracts : List BehavioralContract) (s : EnforcerState) (key : Key) : Prop :=
  ∃ entry, s.softPending.get? key = some entry ∧ entry.startedAtStep < s.stepIndex + 1 ∧
    ∃ c ∈ contracts, c.contractId = key.contractId ∧
      s.stepIndex + 1 ≤ entry.startedAtStep + c.recoveryWindowK

theorem applyClause_trail_extends {c : BehavioralContract} {clause : Clause} {step : ℕ}
    {value : Bool} {s : EnforcerState} (h : (applyClause check c clause step value s).1 = .ok ()) :
    ∃ extra, trail (applyClause check c clause step value s).2 = trail s ++ extra := by
  rcases applyClause_trail h with hsame | ⟨m, hnew, -⟩
  · exact ⟨[], by rw [hsame, List.append_nil]⟩
  · exact ⟨[m], hnew⟩

theorem processAgenda_records {step : ℕ} {c : BehavioralContract} {clause : Clause} {key : Key}
    {xs : List (BehavioralContract × Clause)} {s : EnforcerState}
    (hok : (processAgenda compare check step xs s).1 = .ok ())
    (hdistinct : DistinctKeys check.agentId xs) (hmem : (c, clause) ∈ xs)
    (hkey : keyOf check.agentId c clause = some key)
    (hvalue : evaluateFinite compare check.context clause.formula = .ok false)
    (hfree : token s key = none) :
    ∃ extra, trail (processAgenda compare check step xs s).2 = trail s ++ extra ∧
      ∃ m ∈ extra, m.violatedClause = clause.kind := by
  induction xs generalizing s with
  | nil => cases hmem
  | cons x rest ih =>
    obtain ⟨c', clause'⟩ := x
    have hstops : StopsAtEvaluations compare check step ((c', clause') :: rest) s := .inr hok
    cases hvalue' : evaluateFinite compare check.context clause'.formula with
    | error e =>
      rw [processAgenda_of_raises hvalue'] at hok
      cases hok
    | ok value =>
      have happly := hstops.head hvalue'
      have hrest := hstops.tail hvalue'
      rw [processAgenda_cons hvalue' happly] at hok ⊢
      rcases List.mem_cons.mp hmem with heq | hmem
      · obtain ⟨rfl, rfl⟩ := Prod.mk.inj heq
        obtain ⟨hsoft, rfl⟩ := keyOf_eq_some hkey
        rw [hvalue] at hvalue'
        obtain rfl := Except.ok.inj hvalue'
        obtain ⟨m, hm, hkind⟩ := applyClause_records happly hsoft hfree
        obtain ⟨extra, hextra, -⟩ := processAgenda_trail hrest
        refine ⟨m :: extra, ?_, m, List.mem_cons_self .., hkind⟩
        rw [hextra, hm, List.append_assoc, List.singleton_append]
      · -- a clause before it has another key and leaves the obligation alone
        have hother : keyOf check.agentId c' clause' ≠ some key := fun hkey' =>
          (List.pairwise_cons.mp hdistinct).1 (c, clause) hmem key hkey' hkey
        have hfree' : token (applyClause check c' clause' step value s).2 key = none := by
          rw [applyClause_token happly, if_neg hother]
          exact hfree
        obtain ⟨before, hbefore⟩ := applyClause_trail_extends happly
        obtain ⟨extra, hextra, m, hm, hkind⟩ :=
          ih hok (List.pairwise_cons.mp hdistinct).2 hmem hfree'
        refine ⟨before ++ extra, ?_, m, List.mem_append_right _ hm, hkind⟩
        rw [hextra, hbefore, List.append_assoc]

def sweptRecords (compare : PyVal → Op → Option Str → Except PyErr Bool) (enf : ContractEnforcer)
    (check : Check) (s : EnforcerState) : List ContractViolation :=
  (expiredKeys (s.stepIndex + 1) (afterAgenda compare enf check s)).filterMap
    (escalationOf enf.contracts check (s.stepIndex + 1) (afterAgenda compare enf check s))

section Returning

variable {enf : ContractEnforcer} {s : EnforcerState} {key : Key}
variable (hreturns : ∃ r, (enf.check compare check s).1 = .ok r)
include hreturns

theorem check_trail {extra : List Mark}
    (hextra : trail (afterAgenda compare enf check s) = trail s ++ extra) :
    trail (enf.check compare check s).2 =
      trail s ++ (extra ++ (sweptRecords compare enf check s).map (·.mark)) := by
  have hswept := (check_swept (agendaReturns_of_returns hreturns) (.inr hreturns)).2
  rw [← List.append_assoc, ← hextra]
  unfold trail sweptRecords
  rw [hswept.violations_eq, List.map_append]

theorem sweptRecords_of_expired (hs : PendingOk enf.contracts s) {entry : SoftRecoveryEntry}
    (hget : s.softPending.get? key = some entry) (hlate : entry.deadlineStep < s.stepIndex + 1) :
    ∃ r ∈ sweptRecords compare enf check s, r.violatedClause = key.kind := by
  obtain ⟨c, hc, hid, -⟩ := (hs key entry hget).known
  have htoken : token { s with stepIndex := s.stepIndex + 1 } key =
      some ⟨entry.startedAtStep, entry.deadlineStep⟩ := by
    unfold token
    rw [hget]
    rfl
  have hwalk : token (afterAgenda compare enf check s) key =
      Obligation.evaluate c.recoveryWindowK (s.stepIndex + 1)
        (observed compare check key (agenda enf check))
        (token { s with stepIndex := s.stepIndex + 1 } key) :=
    processAgenda_token (.inr (agendaReturns_of_returns hreturns)) (agenda_distinct enf check)
      (agenda_window enf check hc hid)
  rw [htoken, Obligation.evaluate_late hlate] at hwalk
  obtain ⟨entry', hget', htoken'⟩ := Option.map_eq_some_iff.mp hwalk
  have hlate' : entry'.deadlineStep < s.stepIndex + 1 := by
    rw [(Obligation.Token.mk.inj htoken').2]
    exact hlate
  obtain ⟨r, hr, -, hkind, -⟩ := escalationOf_pending (afterAgenda_pendingOk compare hs) hget'
  exact ⟨r, List.mem_filterMap.mpr ⟨key, mem_expiredKeys.mpr ⟨entry', hget', hlate'⟩, hr⟩, hkind⟩

theorem check_soft_records (hs : PendingOk enf.contracts s)
    (hfalse : SoftFalse compare enf check key) (hnot : ¬ AwaitsRecovery enf.contracts s key) :
    ∃ extra, trail (enf.check compare check s).2 = trail s ++ extra ∧
      ∃ m ∈ extra, m.violatedClause.isSoft = true := by
  have hagenda : agendaReturns compare enf check s := agendaReturns_of_returns hreturns
  obtain ⟨cp, hcp, clause, hclause, hkey, hvalue⟩ := hfalse
  obtain ⟨hsoft, hkey'⟩ := keyOf_eq_some hkey
  have hmem : (cp.1, clause) ∈ agenda enf check :=
    List.mem_flatMap.mpr ⟨cp, hcp, List.mem_map.mpr ⟨clause, hclause, rfl⟩⟩
  cases hget : s.softPending.get? key with
  | none =>
    have hfree : token { s with stepIndex := s.stepIndex + 1 } key = none :=
      (token_eq_none_iff _ key).mpr hget
    obtain ⟨extra, hextra, m, hm, hkind⟩ :=
      processAgenda_records hagenda (agenda_distinct enf check) hmem hkey hvalue hfree
    refine ⟨_, check_trail hreturns hextra, m, List.mem_append_left _ hm, ?_⟩
    rw [hkind]
    exact hsoft
  | some entry =>
    obtain ⟨c, hc, hid, hdeadline⟩ := (hs key entry hget).known
    have hstarted : entry.startedAtStep ≤ s.stepIndex := (hs key entry hget).started_le
    have hlate : entry.deadlineStep < s.stepIndex + 1 := by
      by_contra hintime
      exact hnot ⟨entry, hget, by omega, c, hc, hid, by omega⟩
    obtain ⟨r, hr, hkind⟩ := sweptRecords_of_expired hreturns hs hget hlate
    obtain ⟨extra, hextra, -⟩ := processAgenda_trail (.inr hagenda)
    refine ⟨_, check_trail hreturns hextra, r.mark,
      List.mem_append_right _ (List.mem_map_of_mem hr), ?_⟩
    show r.violatedClause.isSoft = true
    rw [hkind, hkey']
    exact hsoft

end Returning

end TexGovernance.Contracts
