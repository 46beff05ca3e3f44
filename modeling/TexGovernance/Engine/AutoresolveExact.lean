import TexGovernance.Engine.DiscretionaryBand

/-!
# When the precedent step overrides a trigger

The precedent step resolves exactly the ABSTAINs of the discretionary band whose gates are open.
-/

namespace TexGovernance.Engine
open PyStr PyDict PyFloat KeepFirst Pipeline

structure GatesOpen (lower : Str → Str) (ctx : AutoresolveContext) : Prop where
  switch : ctx.precedentAutoresolve = true
  ledger : ctx.decisionLedger = some true
  precedents : ∃ tenant edge, requestTenant ctx.agentTenant = some tenant ∧
    edgeClassSignature lower (some ctx.actionType) (some ctx.channel) (some ctx.environment) =
      some edge ∧
    ctx.minCount ≤ (eligibleSurvivors lower ctx tenant edge).length ∧
    eligibleSurvivors lower ctx tenant edge ≠ [] ∧
    ∀ res ∈ eligibleSurvivors lower ctx tenant edge, res.resolutionVerdict = txt "PERMIT"

structure Resolvable (r : RoutingResult) : Prop where
  abstains : r.verdict = .abstain
  flagged : r.uncertaintyFlags ≠ []
  allowlisted : r.uncertaintyFlags ⊆ discretionaryAbstainFlags

section Step

variable {casefold lower : Str → Str} {ctx : AutoresolveContext} {r : RoutingResult}

theorem precedentCitation_nonblank (tenant : Str) (edge : Str × Str × Str)
    (survivors : List PrecedentResolution) :
    strip (precedentCitation ctx tenant edge survivors) ≠ [] := by
  unfold precedentCitation
  simp only [List.append_assoc]
  exact strip_append_ne_nil _ (by decide)

theorem applyPrecedentAutoresolve_permits (hres : Resolvable r) (hgates : GatesOpen lower ctx) :
    ∃ r', applyPrecedentAutoresolve casefold lower ctx r = .ok r' ∧ r'.verdict = .permit := by
  obtain ⟨tenant, edge, htenant, hedge, hcount, hsome, hpermit⟩ := hgates.precedents
  have hflags : ¬ (r.uncertaintyFlags = [] ∨ ¬ r.uncertaintyFlags ⊆ discretionaryAbstainFlags) :=
    fun h => h.elim hres.flagged fun hno => hno hres.allowlisted
  have hsurvivors : ¬ (eligibleSurvivors lower ctx tenant edge = [] ∨
      ¬ ∀ res ∈ eligibleSurvivors lower ctx tenant edge, res.resolutionVerdict = txt "PERMIT") :=
    fun h => h.elim hsome fun hno => hno hpermit
  unfold applyPrecedentAutoresolve
  rw [hgates.switch, hgates.ledger, htenant, hedge]
  simp only [Bool.not_true, Bool.false_eq_true, if_false, hres.abstains, ne_eq, not_true_eq_false,
    if_neg hflags, if_neg (not_lt.mpr hcount), if_neg hsurvivors]
  have hreturns : ∃ r', r.rebuild casefold .permit
      { reasons := r.reasons ++
          [precedentCitation ctx tenant edge (eligibleSurvivors lower ctx tenant edge)]
        uncertaintyFlags := r.uncertaintyFlags ++ [precedentAutoresolveFlag]
        findings := r.findings
        scores := r.scores.set (txt "precedent_autoresolve") 1 } = .ok r' := by
    apply RoutingResult.make_returns
    · refine clean_append_nonblank r.reasons_clean fun s hs => ?_
      rw [List.mem_singleton.mp hs]
      exact precedentCitation_nonblank _ _ _
    · refine clean_append_nonblank r.flags_clean fun s hs => ?_
      rw [List.mem_singleton.mp hs]
      decide
  obtain ⟨r', hr'⟩ := hreturns
  exact ⟨r', hr', (rebuild_fields hr').1⟩

theorem applyPrecedentAutoresolve_same_iff :
    applyPrecedentAutoresolve casefold lower ctx r = .ok r ↔ ¬ (Resolvable r ∧ GatesOpen lower ctx) := by
  constructor
  · rintro hsame ⟨hres, hgates⟩
    obtain ⟨r', hr', hpermit⟩ := @applyPrecedentAutoresolve_permits casefold _ _ _ hres hgates
    rw [hsame] at hr'
    rw [← Except.ok.inj hr', hres.abstains] at hpermit
    cases hpermit
  · intro hclosed
    by_contra hmoved
    apply hclosed
    unfold applyPrecedentAutoresolve at hmoved
    split at hmoved
    · exact absurd rfl hmoved
    rename_i hswitch
    split at hmoved
    · exact absurd rfl hmoved
    rename_i habstain
    split at hmoved
    · exact absurd rfl hmoved
    rename_i appendReturns hledger
    split at hmoved
    · exact absurd rfl hmoved
    rename_i hflags
    push Not at hflags
    split at hmoved
    · rename_i tenant edge htenant hedge
      simp only at hmoved
      split at hmoved
      · exact absurd rfl hmoved
      rename_i hcount
      split at hmoved
      · exact absurd rfl hmoved
      rename_i hsurvivors
      push Not at hsurvivors
      split at hmoved
      · exact absurd rfl hmoved
      rename_i hreturns
      refine ⟨⟨not_not.mp habstain, hflags.1, hflags.2⟩, ?_, ?_, ?_⟩
      · simpa using hswitch
      · rw [hledger]
        simpa using hreturns
      · exact ⟨tenant, edge, htenant, hedge, not_lt.mp hcount, hsurvivors.1, hsurvivors.2⟩
    · exact absurd rfl hmoved

end Step

section Routed

variable {casefold : Str → Str} {inputs : RouterInputs} {fused : FusedEvidence}
variable {base : RoutingResult}

theorem emittedFlags_clean {finalScore confidence : ℚ} {fired : Bool} :
    ∀ s ∈ emittedFlags inputs finalScore confidence casefold fired, IsClean s := by
  have hite : ∀ {c : Prop} [Decidable c] {xs : List Str}, (∀ s ∈ xs, IsClean s) →
      ∀ s ∈ (if c then xs else []), IsClean s := by
    intro c _ xs hxs s hs
    split at hs
    · exact hxs s hs
    · cases hs
  have hspecialists : ∀ s ∈ specialistFlags casefold inputs.specialistBundle, IsClean s := by
    intro s hs
    obtain ⟨result, -, hs⟩ := List.mem_flatMap.mp (keepFirst_subset _ hs)
    exact result.uncertaintyFlags.property s hs
  have hagent : ∀ s ∈ inputs.agentBundle.allUncertaintyFlags casefold, IsClean s := by
    intro s hs
    rcases List.mem_append.mp (keepFirst_subset _ hs) with hs | hs
    · rcases List.mem_append.mp hs with hs | hs
      · exact inputs.agentBundle.identity.uncertaintyFlags.property s hs
      · exact inputs.agentBundle.capability.uncertaintyFlags.property s hs
    · exact inputs.agentBundle.behavioral.uncertaintyFlags.property s hs
  unfold emittedFlags
  simp only [List.forall_mem_append]
  refine ⟨⟨⟨⟨⟨⟨⟨⟨⟨inputs.semanticAnalysis.uncertaintyFlags.property,
    inputs.semanticAnalysis.recommendedVerdict.uncertaintyFlags.property⟩, hspecialists⟩, ?_⟩, ?_⟩,
    ?_⟩, ?_⟩, ?_⟩, ?_⟩, hite hagent⟩
  all_goals exact hite (by decide)

theorem flagsOf_distinct : ((flagsOf casefold inputs fused).map casefold).Nodup :=
  keepFirst_nodup _

theorem route_fields (h : route casefold defaultSelectiveRiskRule inputs fused = .ok base) :
    base.verdict = verdictOf casefold inputs fused ∧
      base.uncertaintyFlags = flagsOf casefold inputs fused := by
  refine ⟨(RoutingResult.make_fields h).1, ?_⟩
  have hflags := RoutingResult.make_flags h
  have hclean : ∀ s ∈ flagsOf casefold inputs fused, IsClean s :=
    fun s hs => emittedFlags_clean s (keepFirst_subset _ hs)
  have hsame : normalizeStringSequences casefold (flagsOf casefold inputs fused) =
      .ok (flagsOf casefold inputs fused) := by
    refine (normalizeFrom_eq_keepFirst [] hclean).trans (congrArg Except.ok ?_)
    exact keepFirst_of_nodup flagsOf_distinct
  exact (Except.ok.inj (hsame.symm.trans hflags)).symm

end Routed

structure DiscretionaryBand (casefold : Str → Str) (inputs : RouterInputs) (fused : FusedEvidence)
    (o : ComponentOutputs) : Prop where
  abstains : verdictOf casefold inputs fused = .abstain
  flagged : flagsOf casefold inputs fused ≠ []
  allowlisted : flagsOf casefold inputs fused ⊆ discretionaryAbstainFlags
  noSoftViolation : o.contractOutcome.hasSoftViolation = false
  noWarning : o.pathOutcome.hasWarn = false

section Stages

variable {casefold : Str → Str} {base r : RoutingResult}

theorem run_passesThrough {stages : List (Stage PyErr RoutingResult)}
    (h : ∀ stage ∈ stages, PassesThrough stage) (hv : base.verdict ≠ .permit) :
    run stages base = .ok base := by
  induction stages with
  | nil => rfl
  | cons stage rest ih =>
    change stage base >>= run rest = .ok base
    rw [h stage (List.mem_cons_self ..) base hv]
    exact ih fun s hs => h s (List.mem_cons_of_mem _ hs)

theorem softContractStage_quiet {outcome : ContractEvaluationOutcome}
    (hquiet : outcome.hasSoftViolation = false) :
    softContractStage casefold outcome base = .ok base := by
  unfold softContractStage
  rw [hquiet]
  rfl

theorem softContractStage_marked (hfixes : FixesIdentifiers casefold)
    {outcome : ContractEvaluationOutcome} (hsoft : outcome.hasSoftViolation = true)
    (hflag : softViolationUncertaintyFlag ∈ outcome.softUncertaintyFlags)
    (h : softContractStage casefold outcome base = .ok r) : Marked casefold r := by
  unfold softContractStage mergeSoftContractSignals at h
  rw [if_pos hsoft] at h
  simp only at h
  have hmem : softViolationUncertaintyFlag ∈ base.uncertaintyFlags ++ outcome.softUncertaintyFlags :=
    List.mem_append_right _ hflag
  split at h
  · exact rebuild_marked hfixes h (List.mem_cons_self ..) hmem
  · exact rebuild_marked hfixes h (List.mem_cons_self ..) hmem

theorem LiveChecks.path_checked {o : ComponentOutputs} (h : LiveChecks o)
    (hwarn : o.pathOutcome.hasWarn = true) : o.pathOutcome.checked = true := by
  rcases h.path with hneutral | ⟨violated, score, historyLength, hbuild⟩
  · rw [hneutral] at hwarn
    cases hwarn
  · obtain ⟨findings, -, hbuild⟩ := bind_ok hbuild
    rw [← Except.ok.inj hbuild]

theorem LiveChecks.path_no_flag {o : ComponentOutputs} (h : LiveChecks o)
    (hquiet : o.pathOutcome.hasWarn = false) : o.pathOutcome.softUncertaintyFlags = [] := by
  rcases h.path with hneutral | ⟨violated, score, historyLength, hbuild⟩
  · rw [hneutral]
    rfl
  · obtain ⟨findings, -, hbuild⟩ := bind_ok hbuild
    rw [← Except.ok.inj hbuild] at hquiet ⊢
    simp only at hquiet ⊢
    rw [hquiet]
    rfl

theorem pathStage_quiet {o : ComponentOutputs} (hlive : LiveChecks o)
    (hquiet : o.pathOutcome.hasWarn = false)
    (hdistinct : (base.uncertaintyFlags.map casefold).Nodup)
    (h : pathStage casefold o.pathOutcome base = .ok r) :
    r.verdict = base.verdict ∧ r.uncertaintyFlags = base.uncertaintyFlags := by
  unfold pathStage mergePathSignals at h
  simp only at h
  split at h
  · rw [hquiet] at h
    simp only [Bool.false_eq_true, false_and, if_false, hlive.path_no_flag hquiet,
      List.append_nil] at h
    refine ⟨(rebuild_fields h).1, ?_⟩
    have hkept := RoutingResult.make_flags h
    have hsame : normalizeStringSequences casefold base.uncertaintyFlags =
        .ok base.uncertaintyFlags := by
      refine (normalizeFrom_eq_keepFirst [] base.flags_clean).trans (congrArg Except.ok ?_)
      exact keepFirst_of_nodup hdistinct
    exact (Except.ok.inj (hsame.symm.trans hkept)).symm
  · rw [Except.ok.inj h]
    exact ⟨rfl, rfl⟩

theorem pathStage_marked (hfixes : FixesIdentifiers casefold) {o : ComponentOutputs}
    (hlive : LiveChecks o) (hwarn : o.pathOutcome.hasWarn = true)
    (h : pathStage casefold o.pathOutcome base = .ok r) : Marked casefold r := by
  have hmem : softPathUncertaintyFlag ∈
      base.uncertaintyFlags ++ o.pathOutcome.softUncertaintyFlags :=
    List.mem_append_right _ (hlive.path_flag hwarn)
  have hmarker : softPathUncertaintyFlag ∈ markerFlags := List.mem_cons_of_mem _ (List.mem_cons_self ..)
  unfold pathStage mergePathSignals at h
  rw [if_pos ⟨hlive.path_checked hwarn, .inl hwarn⟩] at h
  simp only at h
  split at h
  · exact rebuild_marked hfixes h hmarker hmem
  · exact rebuild_marked hfixes h hmarker hmem

end Stages

section Band

variable {casefold lower : Str → Str} {inputs : RouterInputs} {fused : FusedEvidence}
variable {o : ComponentOutputs} {r : RoutingResult}

section Run

variable (hfixes : FixesIdentifiers casefold) (hlive : LiveChecks o)
variable (hroute : route casefold defaultSelectiveRiskRule inputs fused = .ok o.baseRoutingResult)
variable (hrun : run (stagesAfterRouter casefold o) o.baseRoutingResult = .ok r)
include hlive hroute hrun

theorem run_quiet (habstains : verdictOf casefold inputs fused = .abstain)
    (hsoft : o.contractOutcome.hasSoftViolation = false) (hwarn : o.pathOutcome.hasWarn = false) :
    r.verdict = .abstain ∧ r.uncertaintyFlags = flagsOf casefold inputs fused := by
  obtain ⟨hverdict, hflags⟩ := route_fields hroute
  obtain ⟨first, hfirst, hrun⟩ := bind_ok hrun
  rw [softContractStage_quiet hsoft] at hfirst
  obtain rfl := Except.ok.inj hfirst
  obtain ⟨second, hsecond, hrun⟩ := bind_ok hrun
  have hdistinct : (o.baseRoutingResult.uncertaintyFlags.map casefold).Nodup := by
    rw [hflags]
    exact flagsOf_distinct
  obtain ⟨hsecondVerdict, hsecondFlags⟩ := pathStage_quiet hlive hwarn hdistinct hsecond
  have hheld : second.verdict = .abstain := hsecondVerdict.trans (hverdict.trans habstains)
  have hpermit : second.verdict ≠ .permit := by
    rw [hheld]
    decide
  have hpasses := run_passesThrough (holds_passThrough casefold o) hpermit
  obtain rfl := Except.ok.inj (hrun.symm.trans hpasses)
  exact ⟨hheld, hsecondFlags.trans hflags⟩

include hfixes

omit hroute in
theorem run_marked (hsignal : o.contractOutcome.hasSoftViolation = true ∨ o.pathOutcome.hasWarn = true) :
    Marked casefold r := by
  have hmarks := stagesAfterRouter_mark hfixes hlive
  have hkeeps : ∀ {k : ℕ} {x y : RoutingResult}, Marked casefold x →
      run ((stagesAfterRouter casefold o).drop k) x = .ok y → Marked casefold y := by
    intro k x y hx hxy
    have hrest : Marks casefold x y := run_respects _
      (fun stage hstage => hmarks stage (List.mem_of_mem_drop hstage)) x y hxy
    exact hrest.keeps hx
  obtain ⟨first, hfirst, hrun⟩ := bind_ok hrun
  rcases hsignal with hsoft | hwarn
  · have hmarked := softContractStage_marked hfixes hsoft (hlive.contract_flag hsoft) hfirst
    exact hkeeps (k := 1) hmarked hrun
  · obtain ⟨second, hsecond, hrun⟩ := bind_ok hrun
    exact hkeeps (k := 2) (pathStage_marked hfixes hlive hwarn hsecond) hrun

theorem resolvable_iff_band : Resolvable r ↔ DiscretionaryBand casefold inputs fused o := by
  constructor
  · intro hres
    have hclear : ¬ Marked casefold r := fun hmarked => hmarked.refused hfixes hres.allowlisted
    have hquiet : ∀ {b : Bool}, (b = true → Marked casefold r) → b = false := fun h =>
      Bool.eq_false_iff.mpr (mt h hclear)
    have hsoft := hquiet fun h => run_marked hfixes hlive hrun (.inl h)
    have hwarn := hquiet fun h => run_marked hfixes hlive hrun (.inr h)
    have hmarks : Marks casefold o.baseRoutingResult r :=
      run_respects _ (stagesAfterRouter_mark hfixes hlive) _ r hrun
    have habstains : verdictOf casefold inputs fused = .abstain := by
      rcases hmarks.verdict_eq_or with hsame | hmarked
      · rw [← (route_fields hroute).1, ← hsame]
        exact hres.abstains
      · exact absurd hmarked hclear
    obtain ⟨-, hflags⟩ := run_quiet hlive hroute hrun habstains hsoft hwarn
    exact ⟨habstains, hflags ▸ hres.flagged, hflags ▸ hres.allowlisted, hsoft, hwarn⟩
  · intro hband
    obtain ⟨hverdict, hflags⟩ := run_quiet hlive hroute hrun hband.abstains hband.noSoftViolation
      hband.noWarning
    exact ⟨hverdict, hflags ▸ hband.flagged, hflags ▸ hband.allowlisted⟩

end Run

section Loud

variable (hfixes : FixesIdentifiers casefold) (hband : DiscretionaryBand casefold inputs fused o)
include hfixes hband

theorem DiscretionaryBand.casefold_flag {s : Str} (hs : s ∈ flagsOf casefold inputs fused) :
    casefold s ∈ discretionaryAbstainFlags := by
  have hallowed := hband.allowlisted hs
  rw [hfixes s (flags_clean.2 s hallowed).1]
  exact hallowed

theorem DiscretionaryBand.agent_flag (hpresent : inputs.agentBundle.agentPresent = true)
    {names : List Str} (hcovers : Covers casefold names (inputs.agentBundle.allUncertaintyFlags casefold))
    {s : Str} (hs : s ∈ names) : casefold s ∈ discretionaryAbstainFlags := by
  obtain ⟨t, ht, htag⟩ := hcovers s hs
  have hemitted : t ∈ emittedFlags inputs fused.finalScore fused.confidence casefold
      (semanticDominanceOverrideFired defaultSelectiveRiskRule inputs) := by
    unfold emittedFlags
    rw [if_pos hpresent]
    exact List.mem_append_right _ ht
  obtain ⟨u, hu, hkey⟩ : ∃ u ∈ flagsOf casefold inputs fused, casefold u = casefold t :=
    keepFirst_covers _ t hemitted
  rw [← htag, ← hkey]
  exact hband.casefold_flag hfixes hu

theorem DiscretionaryBand.agent_quiet
    (hagent : ∃ agent, evaluateAgent casefold agent = .ok inputs.agentBundle)
    (hpresent : inputs.agentBundle.agentPresent = true) :
    inputs.agentBundle.identity.lifecycleStatus ∉
        [txt "QUARANTINED", txt "SLEEPING", txt "PENDING"] ∧
      ¬ 3 ≤ inputs.agentBundle.behavioral.forbidStreak := by
  obtain ⟨agent, hagent⟩ := hagent
  obtain ⟨a, -, hstatus, hidentity, hbehavioral⟩ := evaluateAgent_present hagent hpresent
  have hloud : ∀ s ∈ [txt "agent_quarantined", txt "agent_sleeping", txt "agent_pending",
      txt "forbid_streak"], casefold s ∉ discretionaryAbstainFlags := by
    intro s hs
    have hplain : ∀ s ∈ [txt "agent_quarantined", txt "agent_sleeping", txt "agent_pending",
        txt "forbid_streak"], isLowerIdentifier s = true ∧ s ∉ discretionaryAbstainFlags := by
      decide
    rw [hfixes s (hplain s hs).1]
    exact (hplain s hs).2
  constructor
  · have hflag : ∀ s ∈ lifecycleFlags a.identity.lifecycleStatus,
        casefold s ∈ discretionaryAbstainFlags := fun s hs =>
      hband.agent_flag hfixes hpresent hidentity (List.mem_append_left _ (List.mem_append_left _ hs))
    rw [hstatus]
    cases hcase : a.identity.lifecycleStatus with
    | pending =>
      rw [hcase] at hflag
      exact absurd (hflag _ (List.mem_singleton.mpr rfl)) (hloud _ (by simp))
    | quarantined =>
      rw [hcase] at hflag
      exact absurd (hflag _ (List.mem_singleton.mpr rfl)) (hloud _ (by simp))
    | sleeping =>
      rw [hcase] at hflag
      exact absurd (hflag _ (List.mem_singleton.mpr rfl)) (hloud _ (by simp))
    | active => decide
    | revoked => decide
  · intro hstreak
    obtain ⟨hsame, hcovers⟩ := hbehavioral (by omega)
    have hmem : txt "forbid_streak" ∈ behavioralFlags a.history := by
      unfold behavioralFlags
      rw [hsame] at hstreak
      rw [if_pos hstreak]
      simp
    exact hloud _ (by simp) (hband.agent_flag hfixes hpresent hcovers hmem)

theorem DiscretionaryBand.fires_silent
    (hagent : ∃ agent, evaluateAgent casefold agent = .ok inputs.agentBundle)
    {t : AbstainTrigger} (hfires : t.Fires casefold inputs fused o) : t ∈ silentTriggers := by
  have hquiet := hband.agent_quiet hfixes hagent
  cases t with
  | forcedStatus =>
    rw [AbstainTrigger.Fires, forcesAbstain, Bool.and_eq_true, decide_eq_true_eq] at hfires
    exact absurd (List.mem_append_left [txt "PENDING"] hfires.2) (hquiet hfires.1).1
  | missingContext =>
    rw [AbstainTrigger.Fires, lacksRetrievalContext, Bool.and_eq_true, List.any_eq_true] at hfires
    obtain ⟨⟨flag, hflag, hname⟩, -⟩ := hfires
    have hallowed := hband.casefold_flag hfixes hflag
    rw [of_decide_eq_true hname] at hallowed
    exact absurd hallowed (by decide)
  | forbidStreak =>
    rw [AbstainTrigger.Fires, isForbidStreak, Bool.and_eq_true, decide_eq_true_eq] at hfires
    exact absurd hfires.2 (hquiet hfires.1).2
  | pendingAgent =>
    rw [AbstainTrigger.Fires, isPendingAgent, Bool.and_eq_true, Bool.and_eq_true,
      decide_eq_true_eq] at hfires
    refine absurd ?_ (hquiet hfires.1.1).1
    rw [hfires.1.2]
    simp
  | softContract =>
    obtain ⟨r, hr, habstain⟩ := hfires
    rw [softContractStage_quiet hband.noSoftViolation] at hr
    rw [← Except.ok.inj hr] at habstain
    cases habstain
  | pathWarn =>
    obtain ⟨r, hr, habstain⟩ := hfires
    unfold pathStage mergePathSignals at hr
    rw [hband.noWarning] at hr
    simp only [Bool.false_eq_true, false_and, if_false] at hr
    split at hr
    · rw [(rebuild_fields hr).1] at habstain
      cases habstain
    · rw [← Except.ok.inj hr] at habstain
      cases habstain
  | semanticAbstain | semanticForbid | specialistRisk | structuralSpecialist | predictiveHold
  | cadenceHold | riskSpine | pqDurability | crcGate => simp [silentTriggers]

end Loud

/-- For every request and policy and all upstream results: the precedent step
leaves the result alone whenever a trigger fires, exactly if not all of this
holds: the router abstains with flags from the step's list only, the checks
report no soft violation, the gates are open, and a silent trigger fires. -/
theorem autoresolve_respects_triggers_iff (casefold lower : Str → Str) (inputs : RouterInputs)
    (fused : FusedEvidence) (o : ComponentOutputs) (r : RoutingResult)
    (hfixes : FixesIdentifiers casefold) (hlive : LiveChecks o)
    (hagent : ∃ agent, evaluateAgent casefold agent = .ok inputs.agentBundle)
    (hroute : route casefold defaultSelectiveRiskRule inputs fused = .ok o.baseRoutingResult)
    (hrun : run (stagesAfterRouter casefold o) o.baseRoutingResult = .ok r) :
    (∀ t : AbstainTrigger, t.Fires casefold inputs fused o →
      applyPrecedentAutoresolve casefold lower o.autoresolve r = .ok r) ↔
    ¬ (DiscretionaryBand casefold inputs fused o ∧ GatesOpen lower o.autoresolve ∧
      ∃ t ∈ silentTriggers, t.Fires casefold inputs fused o) := by
  have hsame : applyPrecedentAutoresolve casefold lower o.autoresolve r = .ok r ↔
      ¬ (DiscretionaryBand casefold inputs fused o ∧ GatesOpen lower o.autoresolve) := by
    rw [applyPrecedentAutoresolve_same_iff, resolvable_iff_band hfixes hlive hroute hrun]
  constructor
  · rintro hkept ⟨hband, hgates, t, -, hfires⟩
    exact hsame.mp (hkept t hfires) ⟨hband, hgates⟩
  · intro hcondition t hfires
    rw [hsame]
    rintro ⟨hband, hgates⟩
    exact hcondition ⟨hband, hgates, t, hband.fires_silent hfixes hagent hfires, hfires⟩

end Band

def sampleSpecialist : SpecialistResult where
  specialistName := txt "secret_and_pii"
  riskScore := ⟨7 / 10, by norm_num⟩
  matchedPolicyClauseIds := []
  uncertaintyFlags := default

def sampleDimension (confidence : UnitScore) : SemanticDimensionResult where
  score := ⟨1 / 10, tenth_mem⟩
  confidence := confidence

def sampleAnalysis : SemanticAnalysis where
  dimensionResults := sampleDimension ⟨4 / 10, by norm_num⟩ ::
    List.replicate 4 (sampleDimension ⟨9 / 10, nineTenths_mem⟩)
  recommendedVerdict := ⟨.permit, ⟨9 / 10, nineTenths_mem⟩, default⟩
  evidenceSufficiency := ⟨9 / 10, nineTenths_mem⟩
  uncertaintyFlags := default

def sampleInputs : RouterInputs where
  deterministicResult := ⟨[], false⟩
  specialistBundle := [sampleSpecialist]
  semanticAnalysis := sampleAnalysis
  policy := defaultThresholds
  agentBundle := neutralBundle

def sampleFused : FusedEvidence where
  finalScore := ⟨196 / 1000, by norm_num⟩
  confidence := ⟨8075 / 10000, by norm_num⟩
  reasons := [txt "Highest specialist risk came from secret_and_pii (0.70)."]
  findings := []
  scores := Dict.empty
  asiFindings := []

def samplePrecedent : RetrievedPrecedent where
  actionType := some (txt "send_email")
  channel := some (txt "email")
  environment := some (txt "production")
  resolution := some ⟨txt "acme", txt "PERMIT", true, 0, 9 / 10, txt "7f3a"⟩

def sampleAutoresolve : AutoresolveContext where
  precedentAutoresolve := true
  minCount := 3
  freshnessDays := 30
  minConfidence := 8 / 10
  agentTenant := some (txt "acme")
  actionType := txt "send_email"
  channel := txt "email"
  environment := txt "production"
  requestedAt := 1
  precedents := List.replicate 3 samplePrecedent
  decisionLedger := some true

def sampleOutputs (base : RoutingResult) : ComponentOutputs :=
  { quietOutputs neutralOutcome with baseRoutingResult := base, autoresolve := sampleAutoresolve }

theorem sampleOutputs_live (base : RoutingResult) : LiveChecks (sampleOutputs base) :=
  ⟨quietOutputs_live.contract, quietOutputs_live.path⟩

theorem sampleAutoresolve_open : GatesOpen asciiLower sampleAutoresolve where
  switch := rfl
  ledger := rfl
  precedents := by
    refine ⟨txt "acme", (txt "send_email", txt "email", txt "production"), by with_unfolding_all decide,
      by with_unfolding_all decide, by with_unfolding_all decide, ?_, by with_unfolding_all decide⟩
    apply List.ne_nil_of_length_pos
    with_unfolding_all decide

theorem sample_routed : ∃ base, route asciiLower defaultSelectiveRiskRule sampleInputs sampleFused =
    .ok base := by
  apply RoutingResult.make_returns
  · with_unfolding_all decide
  · with_unfolding_all decide

theorem sample_band (base : RoutingResult) :
    DiscretionaryBand asciiLower sampleInputs sampleFused (sampleOutputs base) where
  abstains := by with_unfolding_all decide
  flagged := by with_unfolding_all decide
  allowlisted := by with_unfolding_all decide
  noSoftViolation := rfl
  noWarning := rfl

theorem sample_run {base : RoutingResult}
    (hroute : route asciiLower defaultSelectiveRiskRule sampleInputs sampleFused = .ok base) :
    ∃ r, run (stagesAfterRouter asciiLower (sampleOutputs base)) base = .ok r := by
  have hheld : Held base := by
    unfold Held
    rw [(route_fields hroute).1, (sample_band base).abstains]
    decide
  obtain ⟨r, hr, -⟩ := run_keeps _ (stagesAfterRouter_keep asciiLower (sampleOutputs base)) base hheld
  exact ⟨r, hr⟩

/-- A specialist reports a risk of 0.7 and the semantic layer is unsure about
one dimension. The router abstains for both; the only flag is the dimension's,
and the step turns the ABSTAIN into a PERMIT. -/
theorem autoresolve_respects_triggers_fails :
    ∃ base r, route asciiLower defaultSelectiveRiskRule sampleInputs sampleFused = .ok base ∧
      run (stagesAfterRouter asciiLower (sampleOutputs base)) base = .ok r ∧
      AbstainTrigger.specialistRisk.Fires asciiLower sampleInputs sampleFused (sampleOutputs base) ∧
      r.verdict = .abstain ∧ r.uncertaintyFlags = [txt "low_confidence_semantic_dimension"] ∧
      ∃ r', applyPrecedentAutoresolve asciiLower asciiLower sampleAutoresolve r = .ok r' ∧
        r'.verdict = .permit := by
  obtain ⟨base, hroute⟩ := sample_routed
  obtain ⟨r, hrun⟩ := sample_run hroute
  obtain ⟨hverdict, hflags⟩ := run_quiet (sampleOutputs_live base) hroute hrun
    (sample_band base).abstains rfl rfl
  have hres : Resolvable r :=
    (resolvable_iff_band asciiLower_fixes (sampleOutputs_live base) hroute hrun).mpr (sample_band base)
  refine ⟨base, r, hroute, hrun, ?_, hverdict, ?_, ?_⟩
  · change isSpecialistRisk defaultSelectiveRiskRule sampleInputs sampleFused.finalScore = true
    with_unfolding_all decide
  · rw [hflags]
    with_unfolding_all decide
  · exact applyPrecedentAutoresolve_permits hres sampleAutoresolve_open

theorem autoresolve_respects_triggers_iff_sample :
    ∃ base r, route asciiLower defaultSelectiveRiskRule sampleInputs sampleFused = .ok base ∧
      run (stagesAfterRouter asciiLower (sampleOutputs base)) base = .ok r ∧
      ((∀ t : AbstainTrigger, t.Fires asciiLower sampleInputs sampleFused (sampleOutputs base) →
        applyPrecedentAutoresolve asciiLower asciiLower (sampleOutputs base).autoresolve r = .ok r) ↔
      ¬ (DiscretionaryBand asciiLower sampleInputs sampleFused (sampleOutputs base) ∧
        GatesOpen asciiLower (sampleOutputs base).autoresolve ∧
        ∃ t ∈ silentTriggers, t.Fires asciiLower sampleInputs sampleFused (sampleOutputs base))) := by
  obtain ⟨base, hroute⟩ := sample_routed
  obtain ⟨r, hrun⟩ := sample_run hroute
  exact ⟨base, r, hroute, hrun, autoresolve_respects_triggers_iff asciiLower asciiLower sampleInputs
    sampleFused (sampleOutputs base) r asciiLower_fixes (sampleOutputs_live base) ⟨none, rfl⟩ hroute
    hrun⟩

end TexGovernance.Engine
