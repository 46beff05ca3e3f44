import TexGovernance.Contracts.SoftObligations
import TexGovernance.Engine.ContractBridge
import TexGovernance.Engine.PdpCaution

/-!
# Soft violations and the decision

Over every run of requests, a request whose check finds a soft formula false is flagged, and then
not permitted, unless the obligation of that formula already awaits recovery.
-/

namespace TexGovernance.Engine
open PyStr PyDict Contracts Pipeline

variable (compare : PyVal → Op → Option Str → Except PyErr Bool)
variable (repr : Str → Str) (format3 : ℚ → Str)

def LiveEnforcer.Ok (live : LiveEnforcer) : Prop := PendingOk live.fixed.contracts live.state

def SessionEnforcerRegistry.Ok (r : SessionEnforcerRegistry) : Prop :=
  ∀ key live, r.enforcers.get? key = some live → live.Ok

structure Bridge.Ok (b : Bridge) : Prop where
  enforcer_ok : ∀ live, b.enforcer = some live → live.Ok
  registry_ok : ∀ r, b.registry = some r → r.Ok

structure Bridge.Fresh (b : Bridge) : Prop where
  enforcer_fresh : ∀ live, b.enforcer = some live → live.state = initialState
  registry_fresh : ∀ r, b.registry = some r →
    r.enforcers = Dict.empty ∧ r.primeState = Dict.empty

theorem Bridge.Fresh.ok {b : Bridge} (h : b.Fresh) : b.Ok where
  enforcer_ok := by
    intro live hlive
    unfold LiveEnforcer.Ok
    rw [h.enforcer_fresh live hlive]
    exact initialState_pendingOk _
  registry_ok := by
    intro r hr key live hget
    rw [(h.registry_fresh r hr).1] at hget
    cases hget

namespace SessionEnforcerRegistry

variable {r r' : SessionEnforcerRegistry} {key : Str} {live : LiveEnforcer}

theorem Ok.evict (n : ℕ) (h : r.Ok) : (r.evict n).Ok := by
  induction n generalizing r with
  | zero => exact h
  | succ n ih =>
    unfold SessionEnforcerRegistry.evict
    split
    · exact h
    · exact ih fun key live hget => h key live (Dict.get?_of_get?_popFirst hget)

theorem Ok.set (h : r.Ok) (hlive : live.Ok) (primeState : Dict Str ReplayState) :
    { r with enforcers := r.enforcers.set key live, primeState := primeState }.Ok := by
  intro key' live' hget
  simp only [Dict.get?_set] at hget
  split at hget
  · rw [← Option.some.inj hget]
    exact hlive
  · exact h key' live' hget

theorem getOrCreate_ok (h : r.Ok) (hget : r.getOrCreate key = .ok (live, r')) :
    live.Ok ∧ r'.Ok := by
  unfold getOrCreate at hget
  cases hlive : r.enforcers.get? key with
  | some live' =>
    rw [hlive] at hget
    obtain ⟨rfl, rfl⟩ := Prod.mk.inj (Except.ok.inj hget)
    refine ⟨h key live' hlive, ?_⟩
    intro key' live'' hget'
    rw [Dict.get?_moveToEnd] at hget'
    exact h key' live'' hget'
  | none =>
    rw [hlive] at hget
    obtain ⟨enforcer, -, hget⟩ := bind_ok hget
    obtain ⟨rfl, rfl⟩ := Prod.mk.inj (Except.ok.inj hget)
    have hnew : LiveEnforcer.Ok ⟨enforcer, initialState⟩ := initialState_pendingOk _
    exact ⟨hnew, (h.set hnew _).evict _⟩

theorem Ok.forget (h : r.Ok) (key : Str) : (r.forget key).Ok := by
  unfold SessionEnforcerRegistry.forget
  split
  · intro key' live hget
    simp only [Dict.get?_pop] at hget
    split at hget
    · cases hget
    · exact h key' live hget
  · exact h

end SessionEnforcerRegistry

section Invariant

variable {compare repr format3}

theorem primeEnforcerWithHistory_ok {live : LiveEnforcer} (h : live.Ok)
    (history : List ProposedEvent) (request : EvaluationRequest) :
    (primeEnforcerWithHistory compare live history request).Ok := by
  unfold primeEnforcerWithHistory
  split
  · exact h
  · exact PendingOk.mono (runChecks_pendingOk h) (fun _ _ hget => hget) le_rfl

theorem resolveSession_ok {r r' : SessionEnforcerRegistry} {call : Call} {live : LiveEnforcer}
    {replayed : ℕ} (h : r.Ok) (hresolve : resolveSession compare r call = .ok (live, replayed, r')) :
    live.Ok ∧ r'.Ok := by
  obtain ⟨⟨live₀, r₀⟩, hget, hrest⟩ := bind_ok hresolve
  obtain ⟨hlive, hr⟩ := SessionEnforcerRegistry.getOrCreate_ok h hget
  simp only at hrest
  split at hrest
  · split at hrest
    · obtain ⟨rfl, -, rfl⟩ := (Except.ok.inj hrest)
      exact ⟨hlive, hr⟩
    · cases hrest
      exact ⟨primeEnforcerWithHistory_ok hlive _ _, hr⟩
  · cases hrest
    exact ⟨hlive, hr⟩

theorem checkRequest_ok {live : LiveEnforcer} (h : live.Ok) (check : Check)
    (sessionKey : Option Str) (replayed : ℕ) :
    (checkRequest compare repr format3 live check sessionKey replayed).2.Ok := by
  have hnext : PendingOk live.fixed.contracts (live.fixed.check compare check live.state).2 :=
    check_pendingOk h
  unfold checkRequest
  simp only
  match hresult : live.fixed.check compare check live.state with
  | (.error e, state) =>
    rw [hresult] at hnext
    exact hnext
  | (.ok r, state) =>
    rw [hresult] at hnext
    exact hnext

theorem Bridge.Ok.step {b : Bridge} (h : b.Ok) (step : BridgeStep) :
    (b.step compare repr format3 step).Ok := by
  cases step with
  | forget key =>
    refine ⟨h.enforcer_ok, ?_⟩
    intro r hr
    obtain ⟨r₀, hr₀, rfl⟩ := Option.map_eq_some_iff.mp hr
    exact (h.registry_ok r₀ hr₀).forget key
  | request call =>
    unfold Bridge.step evaluateContractsForRequest
    simp only
    cases hregistry : b.registry with
    | some r =>
      simp only
      cases hresolve : resolveSession compare r call with
      | error e => exact h
      | ok resolved =>
        obtain ⟨live, replayed, r'⟩ := resolved
        obtain ⟨hlive, hr'⟩ := resolveSession_ok (h.registry_ok r hregistry) hresolve
        refine ⟨h.enforcer_ok, ?_⟩
        intro r'' hr''
        rw [← Option.some.inj hr'']
        exact hr'.set (checkRequest_ok hlive _ _ _) _
    | none =>
      cases henforcer : b.enforcer with
      | none => exact h
      | some live =>
        refine ⟨?_, fun r hr => h.registry_ok r (hregistry.trans hr)⟩
        intro live' hlive'
        rw [← Option.some.inj hlive']
        exact checkRequest_ok (h.enforcer_ok live henforcer) _ _ _

theorem Bridge.Ok.runSteps {b : Bridge} (h : b.Ok) (steps : List BridgeStep) :
    (b.runSteps compare repr format3 steps).Ok := by
  induction steps generalizing b with
  | nil => exact h
  | cons step rest ih => exact ih (h.step step)

end Invariant

/-- The enforcer whose `check_pre` the bridge calls, as it is before that
call: the session's, created and primed if need be, or the single one. -/
def activeEnforcer (b : Bridge) (call : Call) : Option LiveEnforcer :=
  match b.registry with
  | none => b.enforcer
  | some r =>
    match resolveSession compare r call with
    | .error _ => none
    | .ok (live, _, _) => some live

def activeCheck (b : Bridge) (call : Call) : Check :=
  checkOfRequest call.request (if b.registry.isSome then none else call.eventLedger)

section Active

variable {compare repr format3} {b : Bridge} {call : Call} {live : LiveEnforcer}

theorem activeEnforcer_ok (h : b.Ok) (hactive : activeEnforcer compare b call = some live) :
    live.Ok := by
  unfold activeEnforcer at hactive
  cases hregistry : b.registry with
  | none =>
    rw [hregistry] at hactive
    exact h.enforcer_ok live hactive
  | some r =>
    rw [hregistry] at hactive
    simp only at hactive
    cases hresolve : resolveSession compare r call with
    | error e =>
      rw [hresolve] at hactive
      cases hactive
    | ok resolved =>
      obtain ⟨live', replayed, r'⟩ := resolved
      rw [hresolve] at hactive
      rw [← Option.some.inj hactive]
      exact (resolveSession_ok (h.registry_ok r hregistry) hresolve).1

theorem evaluate_eq_checkRequest (hactive : activeEnforcer compare b call = some live) :
    ∃ sessionKey replayed, (evaluateContractsForRequest compare repr format3 b call).1 =
      (checkRequest compare repr format3 live (activeCheck b call) sessionKey replayed).1 := by
  unfold activeEnforcer at hactive
  unfold evaluateContractsForRequest activeCheck
  cases hregistry : b.registry with
  | none =>
    rw [hregistry] at hactive
    have henforcer : b.enforcer = some live := hactive
    rw [henforcer]
    exact ⟨none, 0, rfl⟩
  | some r =>
    rw [hregistry] at hactive
    simp only at hactive ⊢
    cases hresolve : resolveSession compare r call with
    | error e =>
      rw [hresolve] at hactive
      cases hactive
    | ok resolved =>
      obtain ⟨live', replayed, r'⟩ := resolved
      rw [hresolve] at hactive
      rw [← Option.some.inj hactive]
      exact ⟨_, replayed, rfl⟩

theorem buildOutcome_flags {sessionKey : Option Str} {replayed step : ℕ}
    {newViolations : List ContractViolation} {outcome : ContractEvaluationOutcome}
    (h : buildOutcome repr format3 sessionKey replayed step newViolations = .ok outcome)
    (hsoft : ∃ v ∈ newViolations, v.violatedClause.isSoft = true) :
    outcome.hasHardViolation = true ∨ outcome.hasSoftViolation = true := by
  obtain ⟨findings, -, h⟩ := bind_ok h
  have hseen : (newViolations.any fun v => v.violatedClause.isSoft) = true :=
    List.any_eq_true.mpr hsoft
  rw [← Except.ok.inj h]
  simp only [hseen, Bool.true_and]
  cases newViolations.any fun v => !v.violatedClause.isSoft with
  | true => exact .inl rfl
  | false => exact .inr rfl

theorem new_violation_marks {s s' : EnforcerState} {extra : List Mark}
    (htrail : trail s' = trail s ++ extra) :
    (s'.violations.drop s.violations.length).map (·.mark) = extra := by
  have hlength : s.violations.length = (trail s).length := (List.length_map _).symm
  rw [List.map_drop, hlength]
  show (trail s').drop _ = extra
  rw [htrail, List.drop_left]

theorem exists_new_violation {s s' : EnforcerState} {extra : List Mark}
    (htrail : trail s' = trail s ++ extra) {m : Mark} (hm : m ∈ extra) :
    ∃ v ∈ s'.violations.drop s.violations.length, v.mark = m := by
  rw [← new_violation_marks htrail] at hm
  exact List.mem_map.mp hm

theorem checkRequest_flags (hlive : live.Ok) {check : Check} {sessionKey : Option Str}
    {replayed : ℕ} {outcome : ContractEvaluationOutcome}
    (h : (checkRequest compare repr format3 live check sessionKey replayed).1 = .ok outcome)
    {key : Key} (hfalse : SoftFalse compare live.fixed check key)
    (hnot : ¬ AwaitsRecovery live.fixed.contracts live.state key) :
    outcome.hasHardViolation = true ∨ outcome.hasSoftViolation = true := by
  unfold checkRequest at h
  simp only at h
  match hresult : live.fixed.check compare check live.state with
  | (.error e, state) =>
    rw [hresult] at h
    cases h
  | (.ok r, state) =>
    rw [hresult] at h
    have hreturns : ∃ r, (live.fixed.check compare check live.state).1 = .ok r := by
      rw [hresult]
      exact ⟨r, rfl⟩
    obtain ⟨extra, htrail, m, hm, hsoft⟩ := check_soft_records hreturns hlive hfalse hnot
    rw [hresult] at htrail
    obtain ⟨v, hv, hmark⟩ := exists_new_violation htrail hm
    refine buildOutcome_flags h ⟨v, hv, ?_⟩
    rw [← hmark] at hsoft
    exact hsoft

end Active

section Decision

variable {casefold lower : Str → Str}

theorem softContractStage_held {outcome : ContractEvaluationOutcome}
    (hsoft : outcome.hasSoftViolation = true) {base r : RoutingResult}
    (h : softContractStage casefold outcome base = .ok r) : Held r := by
  unfold softContractStage mergeSoftContractSignals at h
  rw [if_pos hsoft] at h
  simp only at h
  unfold Held
  split at h
  · rw [(rebuild_fields h).1]
    decide
  · rename_i hv
    rw [(rebuild_fields h).1]
    exact hv

theorem Cautious.held {base r : RoutingResult} (h : Cautious base r) (hb : Held base) : Held r := by
  have hle := h.verdict_le
  unfold Held at hb ⊢
  intro hpermit
  rw [hpermit] at hle
  cases hv : base.verdict with
  | permit => exact hb hv
  | abstain =>
    rw [hv] at hle
    exact absurd hle (by decide)
  | forbid =>
    rw [hv] at hle
    exact absurd hle (by decide)

theorem evaluate_of_contract_flag (o : ComponentOutputs)
    (hflag : o.contractOutcome.hasHardViolation = true ∨ o.contractOutcome.hasSoftViolation = true)
    (hoff : o.autoresolve.precedentAutoresolve = false) {d : Decision}
    (hd : evaluate casefold lower o = .ok d) : d.verdict ≠ .permit := by
  cases hhard : hardViolation o with
  | true =>
    obtain ⟨d', hd', hforbid, -⟩ := evaluate_of_hardViolation o hhard
    rw [hd] at hd'
    rw [Except.ok.inj hd', hforbid]
    decide
  | false =>
    have hsoft : o.contractOutcome.hasSoftViolation = true := by
      rcases hflag with hflag | hflag
      · unfold hardViolation at hhard
        rw [hflag] at hhard
        cases hhard
      · exact hflag
    obtain ⟨r', hr', hd⟩ := bind_ok hd
    rw [evaluateRouting_eq_run casefold o hhard] at hr'
    obtain ⟨r, hr, hprecedent⟩ := bind_ok hr'
    obtain ⟨merged, hmerged, hrest⟩ := bind_ok hr
    have hheld : Held merged := softContractStage_held hsoft hmerged
    have hcautious : Cautious merged r := by
      refine run_respects _ ?_ merged r hrest
      exact fun stage hstage => stagesAfterRouter_respect casefold o stage
        (List.mem_cons_of_mem _ hstage)
    have hsame : r' = r := by
      unfold applyPrecedentAutoresolve at hprecedent
      rw [hoff] at hprecedent
      exact (Except.ok.inj hprecedent).symm
    rw [(buildDecision_fields hd).1, hsame]
    exact hcautious.held hheld

end Decision

/-- In every run of requests, with a single enforcer or a session registry and
with or without replay of an action ledger: a request that is answered, and
whose check finds false the soft formula of `key`, is flagged, and no decision
on it is a PERMIT while precedents are off. The one exception is an obligation
of `key` that is already open and within its recovery window. -/
theorem soft_violation_not_permitted (casefold lower : Str → Str) (b : Bridge) (hfresh : b.Fresh)
    (before : List BridgeStep) (call : Call) (outcome : ContractEvaluationOutcome)
    (hreturns : (evaluateContractsForRequest compare repr format3
      (b.runSteps compare repr format3 before) call).1 = .ok outcome)
    (live : LiveEnforcer)
    (hactive : activeEnforcer compare (b.runSteps compare repr format3 before) call = some live)
    (key : Key)
    (hfalse : SoftFalse compare live.fixed
      (activeCheck (b.runSteps compare repr format3 before) call) key)
    (hnot : ¬ AwaitsRecovery live.fixed.contracts live.state key) :
    (outcome.hasHardViolation = true ∨ outcome.hasSoftViolation = true) ∧
    ∀ o : ComponentOutputs, o.contractOutcome = outcome →
      o.autoresolve.precedentAutoresolve = false →
      ∀ d, evaluate casefold lower o = .ok d → d.verdict ≠ .permit := by
  have hok : (b.runSteps compare repr format3 before).Ok := hfresh.ok.runSteps _
  obtain ⟨sessionKey, replayed, heq⟩ := evaluate_eq_checkRequest hactive
  rw [heq] at hreturns
  have hflag := checkRequest_flags (activeEnforcer_ok hok hactive) hreturns hfalse hnot
  refine ⟨hflag, ?_⟩
  intro o ho hoff d hd
  rw [← ho] at hflag
  exact evaluate_of_contract_flag o hflag hoff hd

def tolerantRegistry : SessionEnforcerRegistry where
  contracts := [softContract (txt "a") [] [txt "false"] (txt "*") 3]
  capacity := 1
  enforcers := Dict.empty
  primeState := Dict.empty
  contracts_ne := List.cons_ne_nil _ _
  capacity_pos := le_rfl

def sampleCall : Call where
  request :=
    { requestId := ⟨txt "00000000-0000-4000-8000-000000000001", by decide⟩
      actionType := txt "send_email"
      content := txt "hello"
      recipient := none
      channel := txt "email"
      environment := txt "production"
      metadata := []
      agentId := none
      sessionId := none
      requestedAt := txt "2026-01-01T00:00:00+00:00"
      sessionId_clean := fun _ h => nomatch h }
  actionLedger := none
  replayWindow := 32
  eventLedger := none

def tolerantEnforcer : ContractEnforcer where
  contracts := tolerantRegistry.contracts
  parsed := [⟨none, none, [], [.const false], [], []⟩]
  contracts_ne := List.cons_ne_nil _ _
  ids_nodup := by decide
  parsed_eq := rfl

def sampleBridge : Bridge := ⟨none, some tolerantRegistry⟩

def sampleKey : Key := ⟨txt "_anonymous", txt "a", .softInvariant, 0⟩

def quoted (s : Str) : Str := txt "'" ++ s ++ txt "'"

def sampleRun (n : ℕ) : Bridge :=
  sampleBridge.runSteps noMatch quoted PyFloat.fixed3 (List.replicate n (.request sampleCall))

def sampleOutcome (n : ℕ) : Except PyErr ContractEvaluationOutcome :=
  (evaluateContractsForRequest noMatch quoted PyFloat.fixed3 (sampleRun n) sampleCall).1

def asciiLower (s : Str) : Str :=
  s.map fun c => if inRanges [(0x41, 0x5a)] c then c + 32 else c

theorem sample_softFalse (n : ℕ) :
    SoftFalse noMatch tolerantEnforcer (activeCheck (sampleRun n) sampleCall) sampleKey := by
  refine ⟨_, List.mem_cons_self .., ⟨.softInvariant, 0, .const false, txt "false"⟩, ?_, rfl, rfl⟩
  exact List.mem_cons_self ..

theorem sampleBridge_fresh : sampleBridge.Fresh := by
  constructor
  · intro live hlive
    cases hlive
  · intro r hr
    rw [← Option.some.inj hr]
    exact ⟨rfl, rfl⟩

theorem soft_violation_not_permitted_sample :
    ∃ outcome, sampleOutcome 0 = .ok outcome ∧
      (outcome.hasHardViolation = true ∨ outcome.hasSoftViolation = true) ∧
      ∀ o : ComponentOutputs, o.contractOutcome = outcome →
        o.autoresolve.precedentAutoresolve = false →
        ∀ d, evaluate asciiLower asciiLower o = .ok d → d.verdict ≠ .permit := by
  have hreturns : ∃ outcome, sampleOutcome 0 = .ok outcome := (isOk_iff _).mp (by with_unfolding_all decide)
  obtain ⟨outcome, houtcome⟩ := hreturns
  refine ⟨outcome, houtcome, soft_violation_not_permitted noMatch quoted PyFloat.fixed3 asciiLower
    asciiLower sampleBridge sampleBridge_fresh [] sampleCall outcome houtcome
    ⟨tolerantEnforcer, initialState⟩ rfl sampleKey (sample_softFalse 0) ?_⟩
  rintro ⟨entry, hget, -⟩
  cases hget

def quietOutputs (outcome : ContractEvaluationOutcome) : ComponentOutputs where
  deterministicFindings := []
  asiFindings := []
  contractOutcome := outcome
  pathOutcome := neutralPathOutcome
  structuralFloor := neutralStructuralFloor
  baseRoutingResult :=
    { verdict := .permit
      confidence := 1
      finalScore := 0
      reasons := []
      uncertaintyFlags := []
      findings := []
      scores := Dict.empty
      asiFindings := []
      semanticDominanceOverrideFired := false
      reasons_clean := clean_nil
      flags_clean := clean_nil }
  lookahead := ⟨false, 0, []⟩
  recoverable := []
  cadence := ⟨.clear, [], []⟩
  riskSpine := none
  pqDurability := ⟨false, []⟩
  crcGate := ⟨false, false, 0, 0, 0, 0, []⟩
  autoresolve := ⟨false, 0, 0, 0, none, [], [], [], 0, [], none⟩

/-- The second request violates the same soft invariant. Its obligation is
open, so the check records nothing, no flag is set, and the request is
permitted. -/
theorem pending_soft_violation_permitted :
    (activeEnforcer noMatch (sampleRun 1) sampleCall).map (·.fixed) = some tolerantEnforcer ∧
    SoftFalse noMatch tolerantEnforcer (activeCheck (sampleRun 1) sampleCall) sampleKey ∧
    ∃ outcome, sampleOutcome 1 = .ok outcome ∧ outcome.hasHardViolation = false ∧
      outcome.hasSoftViolation = false ∧
      ∃ o : ComponentOutputs, o.contractOutcome = outcome ∧
        o.autoresolve.precedentAutoresolve = false ∧
        ∃ d, evaluate asciiLower asciiLower o = .ok d ∧ d.verdict = .permit := by
  refine ⟨rfl, sample_softFalse 1, ?_⟩
  have hflags : (sampleOutcome 1).map (fun o => (o.hasHardViolation, o.hasSoftViolation)) =
      .ok (false, false) := by
    decide
  cases houtcome : sampleOutcome 1 with
  | error e =>
    rw [houtcome] at hflags
    cases hflags
  | ok outcome =>
    rw [houtcome] at hflags
    obtain ⟨hhard, hsoft⟩ := Prod.mk.inj (Except.ok.inj hflags)
    refine ⟨outcome, rfl, hhard, hsoft, quietOutputs outcome, rfl, rfl, ?_⟩
    have hrouting : evaluateRouting asciiLower asciiLower (quietOutputs outcome) =
        .ok (quietOutputs outcome).baseRoutingResult := by
      have hnone : hardViolation (quietOutputs outcome) = false := by
        show (outcome.hasHardViolation || false || false) = false
        rw [hhard]
        rfl
      have hstage : softContractStage asciiLower outcome (quietOutputs outcome).baseRoutingResult =
          .ok (quietOutputs outcome).baseRoutingResult := by
        unfold softContractStage
        rw [hsoft]
        rfl
      rw [evaluateRouting_eq_run asciiLower _ hnone]
      show ((softContractStage asciiLower outcome (quietOutputs outcome).baseRoutingResult >>= _)
        >>= _) = _
      rw [hstage]
      rfl
    unfold evaluate
    rw [hrouting]
    exact ⟨_, rfl, rfl⟩

end TexGovernance.Engine
