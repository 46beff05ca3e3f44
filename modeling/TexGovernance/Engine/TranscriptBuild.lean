import TexGovernance.Engine.Escalation
import TexGovernance.Engine.Transcript

/-!
# Transcripts of live evaluations

`build_verdict_transcript` on what an evaluation leaves behind, and the witness of the
transcript it builds. The stages that only report a signal do not move the running state.
-/

namespace TexGovernance.Engine
open PyStr PyDict PyFloat Pipeline Contracts

structure EvidenceSignals where
  deterministicBlocked : Bool
  agentPresent : Bool
  aggregateRiskScore : ℚ
  maxRiskScore : ℚ
  maxDimensionScore : ℚ

def deterministicSignalScore (blocked : Bool) (findings : List Finding) : ℚ :=
  if blocked then 1
  else findings.foldl (fun worst finding => max worst (severityScore finding.severity)) 0

def classifyDirection (verdictBefore : Verdict) (riskBefore : ℚ) (verdictAfter : Verdict)
    (riskAfter : ℚ) : StageDirection :=
  if verdictAfter.caution < verdictBefore.caution then .towardPermit
  else if verdictBefore.caution < verdictAfter.caution then .towardCaution
  else if riskBefore + eps < riskAfter then .towardCaution
  else if riskAfter < riskBefore - eps then .towardPermit
  else .held

def evidenceStage (index : ℕ) (stage signalId : Str) (signalScore : Option ℚ) : TranscriptStage :=
  ⟨index, stage, signalId, .permit, .permit, 0, 0, .evidence, false, signalScore.map roundScore⟩

def heldStage (index : ℕ) (stage signalId : Str) (verdict : Verdict) (risk : ℚ) : TranscriptStage :=
  ⟨index, stage, signalId, verdict, verdict, roundScore risk, roundScore risk, .held, false, none⟩

def entryStages (signals : EvidenceSignals) (o : ComponentOutputs) : List TranscriptStage :=
  [⟨0, txt "pipeline_entry", txt "pipeline_entry", .permit, .permit, 0, 0, .held, false, none⟩,
    evidenceStage 1 (txt "deterministic_recognizers") (txt "deterministic_recognizers")
      (some (deterministicSignalScore signals.deterministicBlocked o.deterministicFindings)),
    evidenceStage 2 (txt "agent_governance") (txt "agent_governance_streams")
      (if signals.agentPresent then some (roundScore signals.aggregateRiskScore) else none),
    evidenceStage 3 (txt "specialist_judges") (txt "specialist_judges")
      (some (roundScore signals.maxRiskScore)),
    evidenceStage 4 (txt "semantic_judge") (txt "semantic_judge")
      (some (roundScore signals.maxDimensionScore)),
    evidenceStage 5 (txt "behavioral_contracts") (txt "behavioral_contracts") none,
    evidenceStage 6 (txt "path_policies") (txt "path_policies") none]

def firedFloorStage : TranscriptStage :=
  ⟨7, floorStage, txt "structural_floor", .permit, .forbid, 0, 1, .towardCaution, true, none⟩

def shortCircuitStages : List TranscriptStage :=
  [firedFloorStage,
    heldStage 8 (txt "routing_fusion") (txt "routing_fusion") .forbid 1,
    heldStage 9 (txt "monotone_holds") (txt "monotone_holds") .forbid 1]

def fusionStage (base : Verdict) (baseRisk : UnitScore) : TranscriptStage :=
  ⟨8, txt "routing_fusion", txt "routing_fusion", .permit, base, 0, baseRisk,
    classifyDirection .permit 0 base baseRisk, true, none⟩

def holdsStage (base : Verdict) (baseRisk : UnitScore) (final : Verdict) (finalRisk : UnitScore) :
    TranscriptStage :=
  ⟨9, txt "monotone_holds", txt "monotone_holds", base, final, baseRisk, finalRisk,
    classifyDirection base baseRisk final finalRisk,
    decide (base ≠ final ∨ ¬ Near finalRisk baseRisk), none⟩

def routedStages (base : Verdict) (baseRisk : UnitScore) (final : Verdict) (finalRisk : UnitScore) :
    List TranscriptStage :=
  [heldStage 7 floorStage (txt "structural_floor") .permit 0,
    fusionStage base baseRisk,
    holdsStage base baseRisk final finalRisk]

/-- `routedBase` is missing when the router did not run. -/
def buildVerdictTranscript (signals : EvidenceSignals) (o : ComponentOutputs)
    (routedBase : Option RoutingResult) (r : RoutingResult) : VerdictTranscript where
  finalVerdict := r.verdict
  finalRiskScore := roundScore r.finalScore
  structuralFloorFired := o.structuralFloor.fired
  hardViolation := hardViolation o
  stages := entryStages signals o ++
    if hardViolation o then shortCircuitStages
    else
      let base := routedBase.getD r
      routedStages base.verdict (roundScore base.finalScore) r.verdict (roundScore r.finalScore)

/-- The transcript that `evaluate` builds of its routing result. -/
def transcriptOf (signals : EvidenceSignals) (o : ComponentOutputs) (r : RoutingResult) :
    VerdictTranscript :=
  buildVerdictTranscript signals o (if hardViolation o then none else some o.baseRoutingResult) r

theorem roundScore_zero : roundScore 0 = 0 := Subtype.ext (by with_unfolding_all decide)

theorem roundScore_one : roundScore 1 = 1 := Subtype.ext (by with_unfolding_all decide)

theorem near_self (a : ℚ) : Near a a := by
  unfold Near eps
  rw [sub_self, abs_zero]
  norm_num

theorem classifyDirection_ne_evidence (v : Verdict) (a : ℚ) (v' : Verdict) (a' : ℚ) :
    classifyDirection v a v' a' ≠ .evidence := by
  unfold classifyDirection
  split_ifs
  · exact StageDirection.noConfusion
  · exact StageDirection.noConfusion
  · exact StageDirection.noConfusion
  · exact StageDirection.noConfusion
  · exact StageDirection.noConfusion

section Walk

variable {floatText : ℚ → Str} {w : Walk}

theorem run_cons (s : TranscriptStage) (rest : List TranscriptStage) :
    w.run floatText (s :: rest) = (w.step floatText s).run floatText rest := rfl

theorem step_evidenceStage (index : ℕ) (stage signalId : Str) (score : Option ℚ) :
    w.step floatText (evidenceStage index stage signalId score) = w := by
  have hquiet : evidenceViolations (evidenceStage index stage signalId score) = [] := by
    unfold evidenceViolations evidenceStage
    rw [if_neg]
    rintro (hverdict | hrisk)
    · exact hverdict rfl
    · exact hrisk (near_self _)
  rw [step_evidence rfl, hquiet, List.append_nil]

theorem step_exact {s : TranscriptStage} (hdirection : s.direction ≠ .evidence)
    (hverdict : s.verdictBefore = w.runningVerdict) (hrisk : s.riskBefore = w.runningRisk)
    (hrises : s.riskBefore.val ≤ s.riskAfter.val)
    (hfloor : appliesFloor s = true → forcesForbid s = true) :
    w.step floatText s =
      { violations := w.violations ++ verdictViolations s
        nTransforming := w.nTransforming + 1
        forcedForbid := w.forcedForbid || (appliesFloor s && forcesForbid s)
        runningVerdict := s.verdictAfter
        runningRisk := s.riskAfter
        haveRunning := true } := by
  have hcontinuity : continuityViolations floatText w s = [] := by
    unfold continuityViolations
    rw [if_neg]
    rintro ⟨-, hne | hfar⟩
    · exact hne hverdict
    · rw [hrisk] at hfar
      exact hfar (near_self _)
  have hdrop : riskViolations floatText s = [] := by
    unfold riskViolations
    rw [if_neg]
    have heps : (0 : ℚ) < eps := by
      unfold eps
      norm_num
    intro hlt
    linarith
  have hforced : floorViolations floatText s = [] := by
    unfold floorViolations
    rw [if_neg]
    rintro ⟨happlies, hno⟩
    exact hno (hfloor happlies)
  unfold Walk.step
  rw [if_neg hdirection, hcontinuity, hdrop, hforced]
  simp only [List.append_nil]

theorem verdictViolations_eq_nil_iff {s : TranscriptStage} :
    verdictViolations s = [] ↔ s.verdictBefore ≤ s.verdictAfter := by
  unfold verdictViolations
  rw [ite_singleton_eq_nil, not_lt]
  exact Iff.rfl

theorem verdictViolations_of_le {s : TranscriptStage} (h : s.verdictBefore ≤ s.verdictAfter) :
    verdictViolations s = [] :=
  verdictViolations_eq_nil_iff.mpr h

theorem not_appliesFloor {s : TranscriptStage} (h : s.applied = false ∨ s.stage ≠ floorStage) :
    appliesFloor s = false := by
  unfold appliesFloor
  rcases h with h | h
  · rw [h, Bool.and_false]
  · rw [decide_eq_false h, Bool.false_and]

theorem step_plain {s : TranscriptStage} (hdirection : s.direction ≠ .evidence)
    (hverdict : s.verdictBefore = w.runningVerdict) (hrisk : s.riskBefore = w.runningRisk)
    (hrises : s.riskBefore.val ≤ s.riskAfter.val) (hfloor : s.applied = false ∨ s.stage ≠ floorStage) :
    w.step floatText s =
      ⟨w.violations ++ verdictViolations s, w.nTransforming + 1, w.forcedForbid, s.verdictAfter,
        s.riskAfter, true⟩ := by
  have hnot := not_appliesFloor hfloor
  rw [step_exact hdirection hverdict hrisk hrises (by rw [hnot]; exact Bool.noConfusion), hnot,
    Bool.false_and, Bool.or_false]

theorem run_entryStages (signals : EvidenceSignals) (o : ComponentOutputs) :
    Walk.start.run floatText (entryStages signals o) = ⟨[], 1, false, .permit, 0, true⟩ := by
  unfold entryStages
  rw [run_cons, step_plain StageDirection.noConfusion rfl rfl le_rfl (.inl rfl),
    verdictViolations_of_le le_rfl]
  simp only [run_cons, step_evidenceStage]
  rfl

theorem run_shortCircuitStages :
    (Walk.mk [] 1 false .permit 0 true).run floatText shortCircuitStages =
      ⟨[], 4, true, .forbid, 1, true⟩ := by
  have hpermit : firedFloorStage.verdictBefore ≤ firedFloorStage.verdictAfter := Nat.zero_le _
  have hforbids : forcesForbid firedFloorStage = true := by with_unfolding_all decide
  have happlies : appliesFloor firedFloorStage = true := by with_unfolding_all decide
  have hdirection : firedFloorStage.direction ≠ .evidence := StageDirection.noConfusion
  unfold shortCircuitStages heldStage
  rw [roundScore_one, run_cons,
    step_exact hdirection rfl rfl (zero_le_one' UnitScore) (fun _ => hforbids),
    verdictViolations_of_le hpermit, happlies, hforbids, run_cons,
    step_plain StageDirection.noConfusion rfl rfl le_rfl (.inl rfl),
    verdictViolations_of_le le_rfl, run_cons,
    step_plain StageDirection.noConfusion rfl rfl le_rfl (.inl rfl),
    verdictViolations_of_le le_rfl]
  rfl

theorem run_routedStages (base final : Verdict) (risk : UnitScore) :
    (Walk.mk [] 1 false .permit 0 true).run floatText (routedStages base risk final risk) =
      ⟨verdictViolations (holdsStage base risk final risk), 4, false, final, risk, true⟩ := by
  have hfusion : (fusionStage base risk).direction ≠ .evidence :=
    classifyDirection_ne_evidence .permit _ base risk
  have hholds : (holdsStage base risk final risk).direction ≠ .evidence :=
    classifyDirection_ne_evidence _ _ _ _
  have hnamed : txt "routing_fusion" ≠ floorStage := by decide
  have hnamed' : txt "monotone_holds" ≠ floorStage := by decide
  have hpermit : (fusionStage base risk).verdictBefore ≤ (fusionStage base risk).verdictAfter :=
    Nat.zero_le _
  unfold routedStages heldStage
  rw [roundScore_zero, run_cons, step_plain StageDirection.noConfusion rfl rfl le_rfl (.inl rfl),
    verdictViolations_of_le le_rfl, run_cons,
    step_plain hfusion rfl rfl risk.property.1 (.inr hnamed),
    verdictViolations_of_le hpermit, run_cons,
    step_plain hholds rfl rfl le_rfl (.inr hnamed')]
  rfl

end Walk

section Live

variable {casefold lower : Str → Str} {signals : EvidenceSignals} {o : ComponentOutputs}
variable {r : RoutingResult} (floatText : ℚ → Str)

theorem run_append_walk (w : Walk) (xs ys : List TranscriptStage) :
    w.run floatText (xs ++ ys) = (w.run floatText xs).run floatText ys := by
  unfold Walk.run
  exact List.foldl_append

theorem shortCircuit_holds (hhard : hardViolation o = true) (hverdict : r.verdict = .forbid)
    (hscore : r.finalScore = 1) :
    (deriveMonotonicityWitness floatText (transcriptOf signals o r)).holds = true := by
  have hwalk : Walk.start.run floatText (transcriptOf signals o r).stages =
      ⟨[], 4, true, .forbid, 1, true⟩ := by
    unfold transcriptOf buildVerdictTranscript
    simp only [hhard, if_true]
    rw [run_append_walk, run_entryStages, run_shortCircuitStages]
  unfold deriveMonotonicityWitness
  simp only [hwalk, List.nil_append, List.isEmpty_iff]
  unfold finalViolations transcriptOf buildVerdictTranscript
  simp only [hverdict, hscore]
  have hone : roundScore (1 : UnitScore) = 1 := roundScore_one
  rw [hone]
  simp [near_self]

theorem routed_holds_iff (hsoft : hardViolation o = false)
    (hscore : r.finalScore = o.baseRoutingResult.finalScore) :
    (deriveMonotonicityWitness floatText (transcriptOf signals o r)).holds = true ↔
      o.baseRoutingResult.verdict ≤ r.verdict := by
  have hfloor : o.structuralFloor.fired = false := by
    unfold hardViolation at hsoft
    rw [Bool.or_eq_false_iff] at hsoft
    exact hsoft.2
  have hwalk : Walk.start.run floatText (transcriptOf signals o r).stages =
      ⟨verdictViolations (holdsStage o.baseRoutingResult.verdict (roundScore r.finalScore)
          r.verdict (roundScore r.finalScore)), 4, false, r.verdict, roundScore r.finalScore, true⟩ := by
    unfold transcriptOf buildVerdictTranscript
    simp only [hsoft, Bool.false_eq_true, if_false, Option.getD_some, ← hscore]
    rw [run_append_walk, run_entryStages, run_routedStages]
  have hend : finalViolations floatText (transcriptOf signals o r)
      (Walk.start.run floatText (transcriptOf signals o r).stages) = [] := by
    rw [hwalk]
    unfold finalViolations transcriptOf buildVerdictTranscript
    simp [near_self, hfloor]
  unfold deriveMonotonicityWitness
  simp only
  rw [hend, hwalk, List.append_nil, List.isEmpty_iff]
  exact verdictViolations_eq_nil_iff

/-- The precedent step moved the ABSTAIN of the stages before it to PERMIT. -/
def Autoresolved (casefold lower : Str → Str) (o : ComponentOutputs) (r : RoutingResult) : Prop :=
  ∃ r₀, (routeOrForbid casefold o >>= crcStage casefold o.crcGate) = .ok r₀ ∧
    applyPrecedentAutoresolve casefold lower o.autoresolve r₀ = .ok r ∧
    r₀.verdict = .abstain ∧ r.verdict = .permit

theorem evaluateRouting_split (hr : evaluateRouting casefold lower o = .ok r) :
    ∃ r₀, (routeOrForbid casefold o >>= crcStage casefold o.crcGate) = .ok r₀ ∧
      applyPrecedentAutoresolve casefold lower o.autoresolve r₀ = .ok r := by
  apply bind_ok
  rw [← hr]
  unfold evaluateRouting
  rw [bind_assoc]

theorem evaluateRouting_hard (hhard : hardViolation o = true)
    (hr : evaluateRouting casefold lower o = .ok r) :
    (routeOrForbid casefold o >>= crcStage casefold o.crcGate) = .ok r ∧ r.verdict = .forbid ∧
      r.finalScore = 1 := by
  obtain ⟨r₁, hbuild, hv, hf, -, -⟩ := buildHardForbid_returns casefold o
  have hcrc : crcStage casefold o.crcGate r₁ = .ok r₁ := crcStage_passes o.crcGate r₁ (by
    rw [hv]
    decide)
  have hbefore : (routeOrForbid casefold o >>= crcStage casefold o.crcGate) = .ok r₁ := by
    unfold routeOrForbid
    rw [hhard, if_pos rfl, hbuild]
    exact hcrc
  obtain ⟨r₀, hrun, hafter⟩ := evaluateRouting_split hr
  rw [hbefore] at hrun
  cases hrun
  rw [applyPrecedentAutoresolve_of_ne_abstain (by rw [hv]; decide)] at hafter
  cases hafter
  exact ⟨hbefore, hv, hf⟩

theorem evaluateRouting_soft (hsoft : hardViolation o = false) :
    (routeOrForbid casefold o >>= crcStage casefold o.crcGate) =
      run (stagesAfterRouter casefold o) o.baseRoutingResult := by
  have hreturn : ∀ e : Except PyErr RoutingResult, (e >>= fun x => Except.ok x) = e := bind_pure
  unfold routeOrForbid
  rw [hsoft]
  simp only [Bool.false_eq_true, if_false, stagesAfterRouter, run, bind_assoc, hreturn]

/-- The witness of every evaluation holds exactly when the evaluation ends at
least as cautious as the router, and that fails exactly when the precedent
step moved an ABSTAIN to PERMIT. -/
theorem live_witness_holds_iff (hfixes : FixesIdentifiers casefold) (signals : EvidenceSignals)
    (hlive : LiveChecks o) (hr : evaluateRouting casefold lower o = .ok r) :
    ((deriveMonotonicityWitness floatText (transcriptOf signals o r)).holds = true ↔
      (hardViolation o = false → o.baseRoutingResult.verdict ≤ r.verdict)) ∧
    ((deriveMonotonicityWitness floatText (transcriptOf signals o r)).holds = true ↔
      ¬ Autoresolved casefold lower o r) := by
  cases hhard : hardViolation o with
  | true =>
    obtain ⟨-, hverdict, hscore⟩ := evaluateRouting_hard hhard hr
    have hholds : (deriveMonotonicityWitness floatText (transcriptOf signals o r)).holds = true :=
      shortCircuit_holds floatText hhard hverdict hscore
    have hkept : ¬ Autoresolved casefold lower o r := by
      rintro ⟨-, -, -, -, hpermit⟩
      rw [hverdict] at hpermit
      cases hpermit
    exact ⟨iff_of_true hholds (fun h => nomatch h), iff_of_true hholds hkept⟩
  | false =>
    obtain ⟨r₀, hbefore, hafter⟩ := evaluateRouting_split hr
    have hrun := hbefore
    rw [evaluateRouting_soft hhard] at hrun
    have hcautious : Cautious o.baseRoutingResult r₀ :=
      run_respects _ (stagesAfterRouter_respect casefold o) _ r₀ hrun
    have hscore : r.finalScore = o.baseRoutingResult.finalScore :=
      (applyPrecedentAutoresolve_numbers hafter).1.trans hcautious.finalScore_eq
    rw [routed_holds_iff floatText hhard hscore]
    refine ⟨⟨fun hle _ => hle, fun h => h rfl⟩, ?_⟩
    by_cases hmoved : r.verdict = r₀.verdict
    · have hle : o.baseRoutingResult.verdict ≤ r.verdict := hmoved ▸ hcautious.verdict_le
      have hkept : ¬ Autoresolved casefold lower o r := by
        rintro ⟨r₁, hr₁, -, habstain, hpermit⟩
        rw [hbefore] at hr₁
        cases hr₁
        rw [hmoved, habstain] at hpermit
        cases hpermit
      exact iff_of_true hle hkept
    · obtain ⟨hbase, habstain, hpermit⟩ := autoresolved_router_abstains hfixes hlive hrun hafter hmoved
      refine iff_of_false ?_ ?_
      · rw [hbase, hpermit]
        decide
      · exact fun h => h ⟨r₀, hbefore, hafter, habstain, hpermit⟩

end Live

theorem asciiLower_fixes : FixesIdentifiers asciiLower := by
  intro s hs
  unfold isLowerIdentifier at hs
  rw [List.all_eq_true] at hs
  have hfixed : ∀ c ∈ s, (if inRanges [(0x41, 0x5a)] c then c + 32 else c) = c := by
    intro c hc
    have hlower := hs c hc
    rw [if_neg]
    unfold inRanges at hlower ⊢
    simp only [List.any_cons, List.any_nil, Bool.or_false, Bool.or_eq_true, Bool.and_eq_true,
      decide_eq_true_eq] at hlower ⊢
    omega
  exact (List.map_congr_left hfixed).trans (List.map_id' s)

def quietSignals : EvidenceSignals := ⟨false, false, 0, 0, 0⟩

theorem quietOutputs_live : LiveChecks (quietOutputs neutralOutcome) where
  contract := ⟨noMatch, quoted, fixed3, ⟨none, none⟩, sampleCall, rfl⟩
  path := .inl rfl

theorem live_witness_holds_quiet :
    ((deriveMonotonicityWitness fixed3 (transcriptOf quietSignals (quietOutputs neutralOutcome)
        (quietOutputs neutralOutcome).baseRoutingResult)).holds = true ↔
      (hardViolation (quietOutputs neutralOutcome) = false → Verdict.permit ≤ Verdict.permit)) ∧
    ((deriveMonotonicityWitness fixed3 (transcriptOf quietSignals (quietOutputs neutralOutcome)
        (quietOutputs neutralOutcome).baseRoutingResult)).holds = true ↔
      ¬ Autoresolved asciiLower asciiLower (quietOutputs neutralOutcome)
        (quietOutputs neutralOutcome).baseRoutingResult) :=
  live_witness_holds_iff fixed3 asciiLower_fixes quietSignals quietOutputs_live rfl

end TexGovernance.Engine
