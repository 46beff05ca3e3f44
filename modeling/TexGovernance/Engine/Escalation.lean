import TexGovernance.Engine.ContractFlags

/-!
# Escalations and the decision

The sweep escalates an expired obligation to a record of severity `block`, under the name of its
soft clause.
-/

namespace TexGovernance.Contracts
open PyStr PyDict

variable {compare : PyVal → Op → Option Str → Except PyErr Bool}
variable {check : Check} {enf : ContractEnforcer} {s : EnforcerState}

/-- The check evaluates to false a hard formula, or the precondition, of a
contract that applies to it. -/
def HardFalse (compare : PyVal → Op → Option Str → Except PyErr Bool) (enf : ContractEnforcer)
    (check : Check) : Prop :=
  ∃ cp ∈ enf.active check, ∃ clause ∈ clauses check.phase cp.1 cp.2,
    clause.kind.isSoft = false ∧ evaluateFinite compare check.context clause.formula = .ok false

/-- An obligation is open whose deadline lies before the next step. -/
def HasExpired (s : EnforcerState) : Prop :=
  ∃ key entry, s.softPending.get? key = some entry ∧ entry.deadlineStep < s.stepIndex + 1

def Mark.IsHard (m : Mark) : Prop := m.violatedClause.isSoft = false

def Mark.Escalated (m : Mark) : Prop := m.severity = .block ∧ m.recoveryDeadlineStep ≠ none

theorem applyClause_hard {c : BehavioralContract} {clause : Clause} {step : ℕ} {value : Bool}
    (h : (applyClause check c clause step value s).1 = .ok ()) :
    ∃ extra, trail (applyClause check c clause step value s).2 = trail s ++ extra ∧
      ((∃ m ∈ extra, m.IsHard) ↔ clause.kind.isSoft = false ∧ value = false) := by
  cases hsoft : clause.kind.isSoft with
  | true =>
    have hnone : ¬ (true = false ∧ value = false) := fun h => Bool.noConfusion h.1
    rcases applyClause_trail h with hsame | ⟨m, hnew, hkind, -⟩
    · refine ⟨[], by rw [hsame, List.append_nil], ?_⟩
      exact ⟨fun ⟨m, hm, _⟩ => absurd hm List.not_mem_nil, fun h => absurd h hnone⟩
    · refine ⟨[m], hnew, ?_, fun h => absurd h hnone⟩
      rintro ⟨m', hm', hhard⟩
      unfold Mark.IsHard at hhard
      rw [List.mem_singleton.mp hm', hkind, hsoft] at hhard
      cases hhard
  | false =>
    unfold applyClause at *
    rw [hsoft] at h ⊢
    simp only [true_and]
    cases value with
    | true =>
      refine ⟨[], (List.append_nil _).symm, ?_⟩
      exact ⟨fun ⟨m, hm, _⟩ => absurd hm List.not_mem_nil, fun h => Bool.noConfusion h⟩
    | false =>
      simp only at h ⊢
      refine ⟨[(newViolation check c clause.ltl clause.kind false step none none none).mark], ?_,
        fun _ => trivial, fun _ => ⟨_, List.mem_singleton.mpr rfl, hsoft⟩⟩
      rw [commitViolation_state h]
      unfold trail
      rw [List.map_append, List.map_singleton, recorded_mark]

theorem processAgenda_hard {step : ℕ} {xs : List (BehavioralContract × Clause)}
    (hok : (processAgenda compare check step xs s).1 = .ok ()) :
    ∃ extra, trail (processAgenda compare check step xs s).2 = trail s ++ extra ∧
      ((∃ m ∈ extra, m.IsHard) ↔ ∃ x ∈ xs, x.2.kind.isSoft = false ∧
        evaluateFinite compare check.context x.2.formula = .ok false) := by
  induction xs generalizing s with
  | nil => exact ⟨[], (List.append_nil _).symm, by simp⟩
  | cons x rest ih =>
    obtain ⟨c, clause⟩ := x
    have hstops : StopsAtEvaluations compare check step ((c, clause) :: rest) s := .inr hok
    cases hvalue : evaluateFinite compare check.context clause.formula with
    | error e =>
      rw [processAgenda_of_raises hvalue] at hok
      cases hok
    | ok value =>
      have happly := hstops.head hvalue
      rw [processAgenda_cons hvalue happly] at hok ⊢
      obtain ⟨first, hfirst, hhead⟩ := applyClause_hard happly
      obtain ⟨extra, hextra, htail⟩ := ih hok
      refine ⟨first ++ extra, by rw [hextra, hfirst, List.append_assoc], ?_⟩
      simp only [List.mem_append, or_and_right, exists_or, List.mem_cons, exists_eq_left, hhead,
        htail, hvalue, Except.ok.injEq]

theorem agenda_hardFalse :
    (∃ x ∈ agenda enf check, x.2.kind.isSoft = false ∧
      evaluateFinite compare check.context x.2.formula = .ok false) ↔
      HardFalse compare enf check := by
  unfold agenda HardFalse
  constructor
  · rintro ⟨x, hx, hfalse⟩
    obtain ⟨cp, hcp, hx⟩ := List.mem_flatMap.mp hx
    obtain ⟨clause, hclause, rfl⟩ := List.mem_map.mp hx
    exact ⟨cp, hcp, clause, hclause, hfalse⟩
  · rintro ⟨cp, hcp, clause, hclause, hfalse⟩
    exact ⟨(cp.1, clause), List.mem_flatMap.mpr ⟨cp, hcp, List.mem_map_of_mem hclause⟩, hfalse⟩

theorem sweptRecords_marks (hs : PendingOk enf.contracts s) {r : ContractViolation}
    (hr : r ∈ sweptRecords compare enf check s) : ¬ r.mark.IsHard ∧ r.mark.Escalated := by
  obtain ⟨key, hkey, hr⟩ := List.mem_filterMap.mp hr
  obtain ⟨entry, hget, -⟩ := mem_expiredKeys.mp hkey
  have hpending : PendingOk enf.contracts (afterAgenda compare enf check s) :=
    afterAgenda_pendingOk compare hs
  obtain ⟨r', hr', -, hkind, hblock, -, hdeadline⟩ := escalationOf_pending hpending hget
  rw [hr] at hr'
  obtain rfl := Option.some.inj hr'
  refine ⟨?_, hblock, ?_⟩
  · show ¬ r.violatedClause.isSoft = false
    rw [hkind, (hpending key entry hget).isSoft]
    exact Bool.noConfusion
  · show r.recoveryDeadlineStep ≠ none
    rw [hdeadline]
    exact Option.some_ne_none _

section Returning

variable (hreturns : ∃ r, (enf.check compare check s).1 = .ok r)
include hreturns

theorem sweptRecords_nonempty_iff (hs : PendingOk enf.contracts s) :
    (∃ r, r ∈ sweptRecords compare enf check s) ↔ HasExpired s := by
  constructor
  · rintro ⟨r, hr⟩
    obtain ⟨key, hkey, -⟩ := List.mem_filterMap.mp hr
    obtain ⟨entry, hget, hlate⟩ := mem_expiredKeys.mp hkey
    obtain ⟨c, hc, hid, -⟩ := (afterAgenda_pendingOk compare hs key entry hget).known
    have hwalk : token (afterAgenda compare enf check s) key =
        Obligation.evaluate c.recoveryWindowK (s.stepIndex + 1)
          (observed compare check key (agenda enf check)) (token s key) :=
      processAgenda_token (.inr (agendaReturns_of_returns hreturns)) (agenda_distinct enf check)
        (agenda_window enf check hc hid)
    have htoken : token (afterAgenda compare enf check s) key =
        some ⟨entry.startedAtStep, entry.deadlineStep⟩ := by
      unfold token
      rw [hget]
      rfl
    rw [htoken] at hwalk
    obtain ⟨entry', hget', htoken'⟩ :=
      Option.map_eq_some_iff.mp (Obligation.of_evaluate_late hwalk.symm hlate)
    refine ⟨key, entry', hget', ?_⟩
    rw [(Obligation.Token.mk.inj htoken').2]
    exact hlate
  · rintro ⟨key, entry, hget, hlate⟩
    obtain ⟨r, hr, -⟩ := sweptRecords_of_expired hreturns hs hget hlate
    exact ⟨r, hr⟩

theorem check_new_marks (hs : PendingOk enf.contracts s) :
    ∃ extra, trail (enf.check compare check s).2 = trail s ++ extra ∧
      ((∃ m ∈ extra, m.IsHard) ↔ HardFalse compare enf check) ∧
      ((∃ m ∈ extra, m.Escalated) ↔ HasExpired s) := by
  have hagenda : agendaReturns compare enf check s := agendaReturns_of_returns hreturns
  obtain ⟨extra, hextra, hhard⟩ := processAgenda_hard hagenda
  obtain ⟨extra', hextra', hmild⟩ := processAgenda_trail (.inr hagenda)
  obtain rfl : extra' = extra := List.append_cancel_left (hextra'.symm.trans hextra)
  refine ⟨_, check_trail hreturns hextra, ?_, ?_⟩
  · rw [← agenda_hardFalse, ← hhard]
    constructor
    · rintro ⟨m, hm, hm'⟩
      rcases List.mem_append.mp hm with hm | hm
      · exact ⟨m, hm, hm'⟩
      · obtain ⟨r, hr, rfl⟩ := List.mem_map.mp hm
        exact absurd hm' (sweptRecords_marks hs hr).1
    · rintro ⟨m, hm, hm'⟩
      exact ⟨m, List.mem_append_left _ hm, hm'⟩
  · rw [← sweptRecords_nonempty_iff hreturns hs]
    constructor
    · rintro ⟨m, hm, hblock, hdeadline⟩
      rcases List.mem_append.mp hm with hm | hm
      · rcases (hmild m hm).2 with hnone | hwarn
        · exact absurd hnone hdeadline
        · rw [hwarn] at hblock
          cases hblock
      · obtain ⟨r, hr, -⟩ := List.mem_map.mp hm
        exact ⟨r, hr⟩
    · rintro ⟨r, hr⟩
      exact ⟨r.mark, List.mem_append_right _ (List.mem_map_of_mem hr), (sweptRecords_marks hs hr).2⟩

end Returning

end TexGovernance.Contracts

namespace TexGovernance.Engine
open PyStr PyDict Contracts Pipeline

variable {compare : PyVal → Op → Option Str → Except PyErr Bool}
variable {repr : Str → Str} {format3 : ℚ → Str}

/-- The check has appended the block record of an expired obligation. -/
def Escalates (outcome : ContractEvaluationOutcome) : Prop :=
  ∃ v ∈ outcome.rawViolations, v.severity = .block ∧ v.recoveryDeadlineStep ≠ none

theorem buildOutcome_records {sessionKey : Option Str} {replayed step : ℕ}
    {newViolations : List ContractViolation} {outcome : ContractEvaluationOutcome}
    (h : buildOutcome repr format3 sessionKey replayed step newViolations = .ok outcome) :
    outcome.rawViolations = newViolations ∧
      (outcome.hasHardViolation = true ↔ ∃ v ∈ newViolations, v.mark.IsHard) := by
  obtain ⟨findings, -, h⟩ := bind_ok h
  rw [← Except.ok.inj h]
  refine ⟨rfl, ?_⟩
  simp only [List.any_eq_true, Bool.not_eq_true']
  rfl

theorem checkRequest_escalation {live : LiveEnforcer} (hlive : live.Ok) {check : Check}
    {sessionKey : Option Str} {replayed : ℕ} {outcome : ContractEvaluationOutcome}
    (h : (checkRequest compare repr format3 live check sessionKey replayed).1 = .ok outcome) :
    (outcome.hasHardViolation = true ↔ HardFalse compare live.fixed check) ∧
      (Escalates outcome ↔ HasExpired live.state) := by
  unfold checkRequest at h
  simp only at h
  match hresult : live.fixed.check compare check live.state with
  | (.error e, state) =>
    rw [hresult] at h
    cases h
  | (.ok r, state) =>
    rw [hresult] at h
    have hreturns : ∃ r, (live.fixed.check compare check live.state).1 = .ok r := by
      rw [hresult]
      exact ⟨r, rfl⟩
    obtain ⟨extra, htrail, hhard, hescalated⟩ := check_new_marks hreturns hlive
    rw [hresult] at htrail
    obtain ⟨hraw, hflag⟩ := buildOutcome_records h
    rw [hflag, ← hhard, ← hescalated]
    unfold Escalates
    rw [hraw]
    have hnew : ∀ p : Mark → Prop, (∃ v ∈ state.violations.drop live.state.violations.length,
        p v.mark) ↔ ∃ m ∈ extra, p m := by
      intro p
      rw [← new_violation_marks htrail]
      simp only [List.mem_map, exists_exists_and_eq_and]
    exact ⟨hnew Mark.IsHard, hnew Mark.Escalated⟩

theorem evaluate_without_enforcer {b : Bridge} {call : Call} {outcome : ContractEvaluationOutcome}
    (hreturns : (evaluateContractsForRequest compare repr format3 b call).1 = .ok outcome)
    (hactive : activeEnforcer compare b call = none) : outcome = neutralOutcome := by
  unfold activeEnforcer at hactive
  unfold evaluateContractsForRequest at hreturns
  cases hregistry : b.registry with
  | none =>
    rw [hregistry] at hactive hreturns
    have henforcer : b.enforcer = none := hactive
    rw [henforcer] at hreturns
    exact (Except.ok.inj hreturns).symm
  | some r =>
    rw [hregistry] at hactive hreturns
    simp only at hactive hreturns
    cases hresolve : resolveSession compare r call with
    | error e =>
      rw [hresolve] at hreturns
      cases hreturns
    | ok resolved =>
      rw [hresolve] at hactive
      cases hactive

variable (compare repr format3) in
/-- In every run of requests, and for a request that is answered: an
escalation leads to the hard flag, and so to FORBID, exactly if the check
finds a hard formula false whenever an obligation has expired. -/
theorem escalation_forbids_iff (casefold lower : Str → Str) (b : Bridge) (hfresh : b.Fresh)
    (before : List BridgeStep) (call : Call) (outcome : ContractEvaluationOutcome)
    (hreturns : (evaluateContractsForRequest compare repr format3
      (b.runSteps compare repr format3 before) call).1 = .ok outcome) :
    (Escalates outcome → outcome.hasHardViolation = true ∧
      ∀ o : ComponentOutputs, o.contractOutcome = outcome →
        ∃ d, evaluate casefold lower o = .ok d ∧ d.verdict = .forbid) ↔
    ∀ live, activeEnforcer compare (b.runSteps compare repr format3 before) call = some live →
      HasExpired live.state →
      HardFalse compare live.fixed (activeCheck (b.runSteps compare repr format3 before) call) := by
  have hok : (b.runSteps compare repr format3 before).Ok := hfresh.ok.runSteps _
  have hforbids : outcome.hasHardViolation = true → ∀ o : ComponentOutputs,
      o.contractOutcome = outcome → ∃ d, evaluate casefold lower o = .ok d ∧ d.verdict = .forbid := by
    intro hhard o ho
    have hviolation : hardViolation o = true := by
      unfold hardViolation
      rw [ho, hhard]
      rfl
    obtain ⟨d, hd, hforbid, -⟩ := evaluate_of_hardViolation o hviolation
    exact ⟨d, hd, hforbid⟩
  cases hactive : activeEnforcer compare (b.runSteps compare repr format3 before) call with
  | none =>
    constructor
    · intro _ live hlive
      cases hlive
    · rintro - ⟨v, hv, -⟩
      rw [evaluate_without_enforcer hreturns hactive] at hv
      cases hv
  | some live =>
    obtain ⟨sessionKey, replayed, heq⟩ := evaluate_eq_checkRequest hactive
    rw [heq] at hreturns
    obtain ⟨hhard, hescalates⟩ := checkRequest_escalation (activeEnforcer_ok hok hactive) hreturns
    constructor
    · intro h live' hlive' hexpired
      rw [← Option.some.inj hlive'] at hexpired ⊢
      exact hhard.mp (h (hescalates.mpr hexpired)).1
    · intro h hesc
      have hflag := hhard.mpr (h live rfl (hescalates.mp hesc))
      exact ⟨hflag, hforbids hflag⟩

def sampleDecision (n : ℕ) : Except PyErr (ContractEvaluationOutcome × Decision) := do
  let outcome ← sampleOutcome n
  let d ← evaluate asciiLower asciiLower (quietOutputs outcome)
  return (outcome, d)

theorem sampleDecision_run :
    (sampleDecision 4).map (fun r => (r.1.hasHardViolation, r.2.verdict,
      r.1.rawViolations.map fun v => (v.severity, v.recoveryDeadlineStep))) =
      .ok (false, .abstain, [(.block, some 4)]) := by
  with_unfolding_all decide

/-- The obligation of the first request, with a window of three steps, is
escalated at the fifth. No hard formula is false, the hard flag stays off and
the request is held, not forbidden. -/
theorem escalation_abstains :
    ∃ outcome, sampleOutcome 4 = .ok outcome ∧ Escalates outcome ∧
      outcome.hasHardViolation = false ∧
      ∃ o : ComponentOutputs, o.contractOutcome = outcome ∧
        ∃ d, evaluate asciiLower asciiLower o = .ok d ∧ d.verdict = .abstain := by
  have hrun := sampleDecision_run
  cases hdecision : sampleDecision 4 with
  | error e =>
    rw [hdecision] at hrun
    cases hrun
  | ok result =>
    rw [hdecision] at hrun
    obtain ⟨outcome, houtcome, hrest⟩ := bind_ok hdecision
    obtain ⟨d, hd, hresult⟩ := bind_ok hrest
    rw [← Except.ok.inj hresult] at hrun
    obtain ⟨hhard, hrest⟩ := Prod.mk.inj (Except.ok.inj hrun)
    obtain ⟨hverdict, hrecords⟩ := Prod.mk.inj hrest
    have hmem : (ViolationSeverity.block, some 4) ∈
        outcome.rawViolations.map fun v => (v.severity, v.recoveryDeadlineStep) := by
      rw [hrecords]
      exact List.mem_singleton.mpr rfl
    obtain ⟨v, hv, hfields⟩ := List.mem_map.mp hmem
    obtain ⟨hblock, hdeadline⟩ := Prod.mk.inj hfields
    refine ⟨outcome, houtcome, ⟨v, hv, hblock, ?_⟩, hhard, quietOutputs outcome, rfl, d, hd, hverdict⟩
    rw [hdeadline]
    exact Option.some_ne_none _

theorem escalation_forbids_iff_sample :
    ∃ outcome, sampleOutcome 4 = .ok outcome ∧
      ((Escalates outcome → outcome.hasHardViolation = true ∧
        ∀ o : ComponentOutputs, o.contractOutcome = outcome →
          ∃ d, evaluate asciiLower asciiLower o = .ok d ∧ d.verdict = .forbid) ↔
      ∀ live, activeEnforcer noMatch (sampleRun 4) sampleCall = some live →
        HasExpired live.state →
        HardFalse noMatch live.fixed (activeCheck (sampleRun 4) sampleCall)) := by
  have hreturns : ∃ outcome, sampleOutcome 4 = .ok outcome := by
    have hrun := sampleDecision_run
    cases hdecision : sampleDecision 4 with
    | error e =>
      rw [hdecision] at hrun
      cases hrun
    | ok result =>
      obtain ⟨outcome, houtcome, -⟩ := bind_ok hdecision
      exact ⟨outcome, houtcome⟩
  obtain ⟨outcome, houtcome⟩ := hreturns
  exact ⟨outcome, houtcome, escalation_forbids_iff noMatch quoted PyFloat.fixed3 asciiLower
    asciiLower sampleBridge sampleBridge_fresh (List.replicate 4 (.request sampleCall)) sampleCall
    outcome houtcome⟩

end TexGovernance.Engine

namespace TexGovernance.Engine
open PyStr PyDict PyFloat Pipeline Contracts

def isLowerIdentifier (s : Str) : Bool := s.all fun c => inRanges [(0x61, 0x7a), (0x5f, 0x5f), (0x30, 0x39)] c

/-- Documented behaviour of `str.casefold` on lower-case ASCII text. -/
def FixesIdentifiers (casefold : Str → Str) : Prop :=
  ∀ s, isLowerIdentifier s = true → casefold s = s

def markerFlags : List Str := softViolationUncertaintyFlag :: softPathUncertaintyFlag :: holdMarkers

theorem flags_clean : (∀ marker ∈ markerFlags, strip marker = marker ∧ isLowerIdentifier marker = true) ∧
    ∀ flag ∈ discretionaryAbstainFlags, isLowerIdentifier flag = true ∧ flag ∉ markerFlags := by
  decide

def Marked (casefold : Str → Str) (r : RoutingResult) : Prop :=
  ∃ s ∈ r.uncertaintyFlags, casefold s ∈ markerFlags

structure Marks (casefold : Str → Str) (base r : RoutingResult) : Prop where
  verdict_eq_or : r.verdict = base.verdict ∨ Marked casefold r
  keeps : Marked casefold base → Marked casefold r

instance (casefold : Str → Str) : Std.Refl (Marks casefold) where
  refl _ := ⟨.inl rfl, id⟩

instance (casefold : Str → Str) : IsTrans RoutingResult (Marks casefold) where
  trans _ _ _ h h' := by
    refine ⟨?_, fun hmarked => h'.keeps (h.keeps hmarked)⟩
    rcases h'.verdict_eq_or with hsame | hmarked
    · rcases h.verdict_eq_or with hsame' | hmarked
      · exact .inl (hsame.trans hsame')
      · exact .inr (h'.keeps hmarked)
    · exact .inr hmarked

section Flags

variable {casefold : Str → Str}

theorem normalizeFrom_keeps {seen value out : List Str}
    (h : normalizeFrom casefold seen value = .ok out) {item : Str} (hitem : item ∈ value) :
    casefold (strip item) ∈ seen ∨ ∃ t ∈ out, casefold t = casefold (strip item) := by
  induction value generalizing seen out with
  | nil => cases hitem
  | cons first rest ih =>
    unfold normalizeFrom at h
    simp only at h
    split at h
    · cases h
    · split at h
      · rename_i hseen
        rcases List.mem_cons.mp hitem with rfl | hitem
        · exact .inl hseen
        · exact ih h hitem
      · cases hrest : normalizeFrom casefold (casefold (strip first) :: seen) rest with
        | error e =>
          rw [hrest] at h
          cases h
        | ok tail =>
          rw [hrest] at h
          rw [← Except.ok.inj h]
          rcases List.mem_cons.mp hitem with rfl | hitem
          · exact .inr ⟨_, List.mem_cons_self .., rfl⟩
          · rcases ih hrest hitem with hseen | ⟨t, ht, heq⟩
            · rcases List.mem_cons.mp hseen with hfirst | hseen
              · exact .inr ⟨_, List.mem_cons_self .., hfirst.symm⟩
              · exact .inl hseen
            · exact .inr ⟨t, List.mem_cons_of_mem _ ht, heq⟩

theorem rebuild_keeps_flag {base r : RoutingResult} {verdict : Verdict} {d : Draft}
    (h : base.rebuild casefold verdict d = .ok r) {flag : Str} (hflag : flag ∈ d.uncertaintyFlags) :
    ∃ t ∈ r.uncertaintyFlags, casefold t = casefold (strip flag) := by
  rcases normalizeFrom_keeps (RoutingResult.make_flags h) hflag with hseen | hkept
  · cases hseen
  · exact hkept

theorem rebuild_marked (hfixes : FixesIdentifiers casefold) {base r : RoutingResult}
    {verdict : Verdict} {d : Draft} (h : base.rebuild casefold verdict d = .ok r) {marker : Str}
    (hmarker : marker ∈ markerFlags) (hmem : marker ∈ d.uncertaintyFlags) : Marked casefold r := by
  obtain ⟨t, ht, heq⟩ := rebuild_keeps_flag h hmem
  have hclean := flags_clean.1 marker hmarker
  refine ⟨t, ht, ?_⟩
  rw [heq, hclean.1, hfixes marker hclean.2]
  exact hmarker

theorem rebuild_marks {base r : RoutingResult} {verdict : Verdict} {d : Draft}
    (h : base.rebuild casefold verdict d = .ok r)
    (hflags : base.uncertaintyFlags ⊆ d.uncertaintyFlags)
    (hverdict : verdict = base.verdict ∨
      FixesIdentifiers casefold ∧ ∃ marker ∈ markerFlags, marker ∈ d.uncertaintyFlags) :
    Marks casefold base r := by
  constructor
  · rcases hverdict with hsame | ⟨hfixes, marker, hmarker, hmem⟩
    · exact .inl ((rebuild_fields h).1.trans hsame)
    · exact .inr (rebuild_marked hfixes h hmarker hmem)
  · rintro ⟨s, hs, hmarked⟩
    obtain ⟨t, ht, heq⟩ := rebuild_keeps_flag h (hflags hs)
    refine ⟨t, ht, ?_⟩
    rw [heq, (base.flags_clean s hs).1]
    exact hmarked

end Flags

section Stages

variable {casefold lower : Str → Str} (hfixes : FixesIdentifiers casefold)
include hfixes

theorem DemotesMarked.marks {stage : Stage PyErr RoutingResult} (h : DemotesMarked casefold stage) :
    Respects (Marks casefold) stage := by
  intro base r hr
  rcases h base r hr with rfl | ⟨-, d, hd, hflags, marker, hmarker, hmem⟩
  · exact refl _
  · refine rebuild_marks hd hflags (.inr ⟨hfixes, marker, ?_, hmem⟩)
    exact List.mem_cons_of_mem _ (List.mem_cons_of_mem _ hmarker)

theorem softContractStage_marks {outcome : ContractEvaluationOutcome}
    (hflag : outcome.hasSoftViolation = true →
      softViolationUncertaintyFlag ∈ outcome.softUncertaintyFlags) :
    Respects (Marks casefold) (softContractStage casefold outcome) := by
  intro base r h
  unfold softContractStage mergeSoftContractSignals at h
  simp only at h
  split at h
  · rename_i hsoft
    split at h
    · exact rebuild_marks h (List.subset_append_left _ _) (.inr ⟨hfixes, _,
        List.mem_cons_self .., List.mem_append_right _ (hflag hsoft)⟩)
    · exact rebuild_marks h (List.subset_append_left _ _) (.inl rfl)
  · rw [Except.ok.inj h]
    exact refl _

theorem pathStage_marks {outcome : PathPolicyOutcome}
    (hflag : outcome.hasWarn = true → softPathUncertaintyFlag ∈ outcome.softUncertaintyFlags) :
    Respects (Marks casefold) (pathStage casefold outcome) := by
  intro base r h
  unfold pathStage mergePathSignals at h
  simp only at h
  split at h
  · split at h
    · rename_i hwarn
      exact rebuild_marks h (List.subset_append_left _ _) (.inr ⟨hfixes, _,
        List.mem_cons_of_mem _ (List.mem_cons_self ..), List.mem_append_right _ (hflag hwarn.1)⟩)
    · exact rebuild_marks h (List.subset_append_left _ _) (.inl rfl)
  · rw [Except.ok.inj h]
    exact refl _

structure LiveChecks (o : ComponentOutputs) : Prop where
  contract : ∃ compare repr format3 b call,
    (evaluateContractsForRequest compare repr format3 b call).1 = .ok o.contractOutcome
  path : o.pathOutcome = neutralPathOutcome ∨
    ∃ violated violationScore historyLength,
      buildPathOutcome violated violationScore historyLength = .ok o.pathOutcome

omit hfixes in
theorem checkRequest_soft_flag {compare : PyVal → Op → Option Str → Except PyErr Bool}
    {repr : Str → Str} {format3 : ℚ → Str} {live : LiveEnforcer} {check : Check}
    {sessionKey : Option Str} {replayed : ℕ} {outcome : ContractEvaluationOutcome}
    (h : (checkRequest compare repr format3 live check sessionKey replayed).1 = .ok outcome)
    (hsoft : outcome.hasSoftViolation = true) :
    softViolationUncertaintyFlag ∈ outcome.softUncertaintyFlags := by
  unfold checkRequest at h
  simp only at h
  match hresult : live.fixed.check compare check live.state with
  | (.error e, state) =>
    rw [hresult] at h
    cases h
  | (.ok r, state) =>
    rw [hresult] at h
    obtain ⟨findings, -, h⟩ := bind_ok h
    rw [← Except.ok.inj h] at hsoft ⊢
    simp only at hsoft ⊢
    rw [if_pos hsoft]
    exact List.mem_singleton.mpr rfl

omit hfixes in
theorem LiveChecks.contract_flag {o : ComponentOutputs} (h : LiveChecks o)
    (hsoft : o.contractOutcome.hasSoftViolation = true) :
    softViolationUncertaintyFlag ∈ o.contractOutcome.softUncertaintyFlags := by
  obtain ⟨compare, repr, format3, b, call, hreturns⟩ := h.contract
  cases hactive : activeEnforcer compare b call with
  | none =>
    rw [evaluate_without_enforcer hreturns hactive] at hsoft
    cases hsoft
  | some live =>
    obtain ⟨sessionKey, replayed, heq⟩ := evaluate_eq_checkRequest hactive
    rw [heq] at hreturns
    exact checkRequest_soft_flag hreturns hsoft

omit hfixes in
theorem LiveChecks.path_flag {o : ComponentOutputs} (h : LiveChecks o)
    (hwarn : o.pathOutcome.hasWarn = true) :
    softPathUncertaintyFlag ∈ o.pathOutcome.softUncertaintyFlags := by
  rcases h.path with hneutral | ⟨violated, score, historyLength, hbuild⟩
  · rw [hneutral] at hwarn
    cases hwarn
  · obtain ⟨findings, -, hbuild⟩ := bind_ok hbuild
    rw [← Except.ok.inj hbuild] at hwarn ⊢
    simp only at hwarn ⊢
    rw [if_pos hwarn]
    exact List.mem_singleton.mpr rfl

theorem stagesAfterRouter_mark {o : ComponentOutputs} (hlive : LiveChecks o) :
    ∀ stage ∈ stagesAfterRouter casefold o, Respects (Marks casefold) stage := by
  simp only [stagesAfterRouter, List.forall_mem_cons, List.not_mem_nil, false_implies,
    implies_true, and_true]
  exact ⟨softContractStage_marks hfixes hlive.contract_flag,
    pathStage_marks hfixes hlive.path_flag,
    DemotesMarked.marks hfixes (applyPredictiveHolds_demotes _ _),
    DemotesMarked.marks hfixes (applyCadenceHold_demotes _),
    DemotesMarked.marks hfixes (applyRiskSpine_demotes _),
    DemotesMarked.marks hfixes (applyPqDurabilityHold_demotes _),
    DemotesMarked.marks hfixes (crcStage_demotes _)⟩

theorem Marked.refused {base : RoutingResult} (hmarked : Marked casefold base) :
    ¬ base.uncertaintyFlags ⊆ discretionaryAbstainFlags := by
  obtain ⟨s, hs, hmarker⟩ := hmarked
  intro hsubset
  obtain ⟨hlower, hno⟩ := flags_clean.2 s (hsubset hs)
  rw [hfixes s hlower] at hmarker
  exact hno hmarker

theorem applyPrecedentAutoresolve_of_marked {ctx : AutoresolveContext} {base : RoutingResult}
    (hmarked : Marked casefold base) :
    applyPrecedentAutoresolve casefold lower ctx base = .ok base := by
  have hrefused := hmarked.refused hfixes
  unfold applyPrecedentAutoresolve
  split
  · rfl
  split
  · rfl
  split
  · rfl
  rw [if_pos (.inr hrefused)]

theorem autoresolved_router_abstains {o : ComponentOutputs} (hlive : LiveChecks o)
    {r r' : RoutingResult} (hrun : run (stagesAfterRouter casefold o) o.baseRoutingResult = .ok r)
    (hr' : applyPrecedentAutoresolve casefold lower o.autoresolve r = .ok r')
    (hmoved : r'.verdict ≠ r.verdict) :
    o.baseRoutingResult.verdict = .abstain ∧ r.verdict = .abstain ∧ r'.verdict = .permit := by
  have hmarks : Marks casefold o.baseRoutingResult r :=
    run_respects _ (stagesAfterRouter_mark hfixes hlive) _ r hrun
  rcases applyPrecedentAutoresolve_cases hr' with rfl | ⟨habstain, d, hd⟩
  · exact absurd rfl hmoved
  · rcases hmarks.verdict_eq_or with hsame | hmarked
    · exact ⟨hsame.symm.trans habstain, habstain, (rebuild_fields hd).1⟩
    · rw [applyPrecedentAutoresolve_of_marked hfixes hmarked] at hr'
      exact absurd (by rw [Except.ok.inj hr']) hmoved

end Stages

end TexGovernance.Engine
