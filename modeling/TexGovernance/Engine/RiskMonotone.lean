import TexGovernance.Engine.FusedScore

/-!
# The verdict is monotone in risk

Two evaluations that differ in their scores only. Every test of the ladder that leads to a FORBID
goes up with the scores.
-/

namespace TexGovernance.Engine
open PyStr PyDict PyFloat KeepFirst

section Ends

variable {rule : SelectiveRiskRule} {inputs : RouterInputs} {finalScore confidence : ℚ}
variable {casefold : Str → Str} {uncertaintyFlags : List Str}

theorem semanticDominance_forbid (h : semanticDominance rule inputs = true) :
    inputs.semanticAnalysis.recommendedVerdict.verdict = .forbid := by
  unfold semanticDominance at h
  simp only [Bool.and_eq_true, decide_eq_true_eq] at h
  exact h.1.1.1

theorem determineVerdict_forbid_iff :
    determineVerdict rule inputs finalScore confidence casefold uncertaintyFlags = .forbid ↔
      inputs.deterministicResult.blocked = true ∨ forcesAbstain inputs = false ∧
        (violatesCapability inputs = true ∨ semanticDominance rule inputs = true ∨
          (inputs.semanticAnalysis.recommendedVerdict.verdict = .forbid ∧
            inputs.policy.permitThreshold.val ≤ finalScore) ∨
          inputs.policy.forbidThreshold.val ≤ finalScore) := by
  unfold determineVerdict
  simp only
  split
  · rename_i hblocked
    simp [hblocked]
  rename_i hblocked
  split
  · rename_i hforces
    simp [hblocked, hforces]
  rename_i hforces
  split
  · rename_i hviolates
    simp [hforces, hviolates]
  rename_i hviolates
  split
  · rename_i hdominance
    simp [hforces, hdominance]
  rename_i hdominance
  split
  · rename_i hsoft
    simp [hforces, hsoft]
  rename_i hsoft
  split
  · rename_i hscore
    simp [hforces, hscore]
  rename_i hscore
  have hno : ¬ (inputs.deterministicResult.blocked = true ∨ forcesAbstain inputs = false ∧
      (violatesCapability inputs = true ∨ semanticDominance rule inputs = true ∨
        (inputs.semanticAnalysis.recommendedVerdict.verdict = .forbid ∧
          inputs.policy.permitThreshold.val ≤ finalScore) ∨
        inputs.policy.forbidThreshold.val ≤ finalScore)) := by
    simp only [hblocked, hviolates, hdominance, hsoft, hscore]
    simp
  simp only [hno, iff_false]
  split
  · exact Verdict.noConfusion
  · split
    · exact Verdict.noConfusion
    · exact Verdict.noConfusion

theorem determineVerdict_permit_iff :
    determineVerdict rule inputs finalScore confidence casefold uncertaintyFlags = .permit ↔
      inputs.deterministicResult.blocked = false ∧ forcesAbstain inputs = false ∧
        violatesCapability inputs = false ∧
        shouldAbstain rule inputs finalScore confidence casefold uncertaintyFlags = false ∧
        finalScore ≤ inputs.policy.permitThreshold.val ∧
        inputs.policy.minimumConfidence.val ≤ confidence ∧
        inputs.semanticAnalysis.recommendedVerdict.verdict = .permit := by
  constructor
  · intro h
    have hforbid := mt determineVerdict_forbid_iff.mpr (by rw [h]; exact Verdict.noConfusion)
    unfold determineVerdict at h
    simp only at h
    split at h
    · cases h
    rename_i hblocked
    split at h
    · cases h
    rename_i hforces
    split at h
    · cases h
    rename_i hviolates
    split at h
    · cases h
    split at h
    · cases h
    split at h
    · cases h
    split at h
    · cases h
    rename_i hshould
    split at h
    · rename_i hclean
      exact ⟨Bool.eq_false_iff.mpr hblocked, Bool.eq_false_iff.mpr hforces,
        Bool.eq_false_iff.mpr hviolates, Bool.eq_false_iff.mpr hshould, hclean⟩
    · cases h
  · intro ⟨hblocked, hforces, hviolates, hshould, hscore, hconfidence, hrecommended⟩
    have hdominance : ¬ semanticDominance rule inputs = true := by
      intro hdominance
      rw [semanticDominance_forbid hdominance] at hrecommended
      cases hrecommended
    have hbelow : ¬ inputs.policy.forbidThreshold.val ≤ finalScore :=
      not_le.mpr (hscore.trans_lt inputs.policy.permit_lt_forbid)
    unfold determineVerdict
    simp only
    rw [if_neg (Bool.eq_false_iff.mp hblocked), if_neg (Bool.eq_false_iff.mp hforces),
      if_neg (Bool.eq_false_iff.mp hviolates), if_neg hdominance,
      if_neg (fun hsoft => by rw [hrecommended] at hsoft; exact Verdict.noConfusion hsoft.1),
      if_neg hbelow, if_neg (Bool.eq_false_iff.mp hshould), if_pos ⟨hscore, hconfidence, hrecommended⟩]

end Ends

/-- What `route` is given, with the stream scores it reads and the confidence
it computes. -/
structure Evaluation where
  inputs : RouterInputs
  specialistScore : UnitScore
  criticalityScore : UnitScore
  agentIdentityScore : UnitScore
  agentCapabilityScore : UnitScore
  agentBehavioralScore : UnitScore
  confidence : ℚ

theorem foldr_max_unit {scores : List ℚ} (h : ∀ s ∈ scores, s ∈ Set.Icc (0 : ℚ) 1) :
    scores.foldr max 0 ∈ Set.Icc (0 : ℚ) 1 := by
  induction scores with
  | nil => exact ⟨le_rfl, zero_le_one⟩
  | cons s scores ih =>
    obtain ⟨h0, h1⟩ := ih fun t ht => h t (List.mem_cons_of_mem _ ht)
    exact ⟨h0.trans (le_max_right _ _), max_le (h s (List.mem_cons_self ..)).2 h1⟩

theorem severityScore_mem (severity : Severity) :
    0 < severityScore severity ∧ severityScore severity ≤ 1 := by
  cases severity <;> norm_num [severityScore]

theorem deterministicScore_mem (result : DeterministicGateResult) :
    deterministicScore result ∈ Set.Icc (0 : ℚ) 1 := by
  unfold deterministicScore
  split
  · exact ⟨zero_le_one, le_rfl⟩
  · split
    · exact ⟨le_rfl, zero_le_one⟩
    · have hmax : ((result.findings.map fun finding => severityScore finding.severity).foldr max 0) ∈
          Set.Icc (0 : ℚ) 1 := by
        apply foldr_max_unit
        intro s hs
        obtain ⟨finding, -, rfl⟩ := List.mem_map.mp hs
        obtain ⟨h0, h1⟩ := severityScore_mem finding.severity
        exact ⟨h0.le, h1⟩
      exact ⟨le_min zero_le_one hmax.1, min_le_left _ _⟩

theorem maxDimensionScore_mem (analysis : SemanticAnalysis) :
    analysis.maxDimensionScore ∈ Set.Icc (0 : ℚ) 1 := by
  apply foldr_max_unit
  intro s hs
  obtain ⟨result, -, rfl⟩ := List.mem_map.mp hs
  exact result.score.property

theorem deterministicScore_pos_iff {result : DeterministicGateResult} (h : result.blocked = false) :
    0 < deterministicScore result ↔ result.findings ≠ [] := by
  unfold deterministicScore
  rw [h, if_neg Bool.false_ne_true]
  cases result.findings with
  | nil => simp
  | cons finding findings =>
    have hpos := (severityScore_mem finding.severity).1
    simp [hpos]

namespace Evaluation

def streams (evaluation : Evaluation) : StreamScores where
  deterministic := ⟨_, deterministicScore_mem evaluation.inputs.deterministicResult⟩
  specialists := evaluation.specialistScore
  semantic := ⟨_, maxDimensionScore_mem evaluation.inputs.semanticAnalysis⟩
  criticality := evaluation.criticalityScore
  agentIdentity := evaluation.agentIdentityScore
  agentCapability := evaluation.agentCapabilityScore
  agentBehavioral := evaluation.agentBehavioralScore

def finalScore (evaluation : Evaluation) (weights : FusionWeights) : ℚ :=
  fuseScores evaluation.streams weights evaluation.inputs.agentBundle.agentPresent

def flags (evaluation : Evaluation) (weights : FusionWeights) (casefold : Str → Str)
    (rule : SelectiveRiskRule) : List Str :=
  buildUncertaintyFlags evaluation.inputs (evaluation.finalScore weights) evaluation.confidence
    casefold (semanticDominanceOverrideFired rule evaluation.inputs)

/-- The verdict of `route`. -/
def verdict (evaluation : Evaluation) (weights : FusionWeights) (casefold : Str → Str)
    (rule : SelectiveRiskRule) : Verdict :=
  determineVerdict rule evaluation.inputs (evaluation.finalScore weights) evaluation.confidence
    casefold (evaluation.flags weights casefold rule)

end Evaluation

structure SpecialistResult.RisesTo (first second : SpecialistResult) : Prop where
  specialistName : first.specialistName = second.specialistName
  matchedPolicyClauseIds : first.matchedPolicyClauseIds = second.matchedPolicyClauseIds
  uncertaintyFlags : first.uncertaintyFlags = second.uncertaintyFlags
  riskScore : first.riskScore.val ≤ second.riskScore.val

structure Evaluation.RisesTo (first second : Evaluation) : Prop where
  policy : first.inputs.policy = second.inputs.policy
  blocked : first.inputs.deterministicResult.blocked = second.inputs.deterministicResult.blocked
  confidence : first.confidence = second.confidence
  recommendedVerdict : first.inputs.semanticAnalysis.recommendedVerdict =
    second.inputs.semanticAnalysis.recommendedVerdict
  dimensionConfidences : (first.inputs.semanticAnalysis.dimensionResults.map (·.confidence)) =
    second.inputs.semanticAnalysis.dimensionResults.map (·.confidence)
  evidenceSufficiency : first.inputs.semanticAnalysis.evidenceSufficiency =
    second.inputs.semanticAnalysis.evidenceSufficiency
  semanticFlags : first.inputs.semanticAnalysis.uncertaintyFlags =
    second.inputs.semanticAnalysis.uncertaintyFlags
  agentBundle : first.inputs.agentBundle = second.inputs.agentBundle
  specialists : List.Forall₂ SpecialistResult.RisesTo first.inputs.specialistBundle
    second.inputs.specialistBundle
  deterministicScore : deterministicScore first.inputs.deterministicResult ≤
    deterministicScore second.inputs.deterministicResult
  maxDimensionScore : first.inputs.semanticAnalysis.maxDimensionScore ≤
    second.inputs.semanticAnalysis.maxDimensionScore
  specialistScore : first.specialistScore.val ≤ second.specialistScore.val
  criticalityScore : first.criticalityScore.val ≤ second.criticalityScore.val
  agentIdentityScore : first.agentIdentityScore.val ≤ second.agentIdentityScore.val
  agentCapabilityScore : first.agentCapabilityScore.val ≤ second.agentCapabilityScore.val
  agentBehavioralScore : first.agentBehavioralScore.val ≤ second.agentBehavioralScore.val

section Specialists

variable {first second : List SpecialistResult}

theorem maxRiskScore_rises (h : List.Forall₂ SpecialistResult.RisesTo first second) :
    maxRiskScore first ≤ maxRiskScore second := by
  unfold maxRiskScore
  induction h with
  | nil => exact le_rfl
  | cons hhead _ ih => exact max_le_max hhead.riskScore ih

theorem specialistFlags_rises (casefold : Str → Str)
    (h : List.Forall₂ SpecialistResult.RisesTo first second) :
    specialistFlags casefold first = specialistFlags casefold second := by
  unfold specialistFlags
  congr 1
  induction h with
  | nil => rfl
  | cons hhead _ ih => rw [List.flatMap_cons, List.flatMap_cons, hhead.uncertaintyFlags, ih]

theorem any_rises {p q : SpecialistResult → Bool}
    (hpq : ∀ a b, SpecialistResult.RisesTo a b → p a = true → q b = true)
    (h : List.Forall₂ SpecialistResult.RisesTo first second) (hany : first.any p = true) :
    second.any q = true := by
  induction h with
  | nil => cases hany
  | cons hhead _ ih =>
    rw [List.any_cons, Bool.or_eq_true] at hany ⊢
    rcases hany with hp | hany
    · exact .inl (hpq _ _ hhead hp)
    · exact .inr (ih hany)

end Specialists

namespace Evaluation.RisesTo

variable {first second : Evaluation} {weights : FusionWeights} {rule : SelectiveRiskRule}
variable {casefold : Str → Str} {flags flags' : List Str}

theorem finalScore_le (h : first.RisesTo second) (hweights : weights.Nonneg) :
    first.finalScore weights ≤ second.finalScore weights := by
  obtain ⟨h1, h2, h3, h4, h5, h6, h7⟩ :=
    effectiveWeights_nonneg hweights second.inputs.agentBundle.agentPresent
  have hd := mul_le_mul_of_nonneg_right h.deterministicScore h1
  have hs := mul_le_mul_of_nonneg_right h.specialistScore h2
  have hm := mul_le_mul_of_nonneg_right h.maxDimensionScore h3
  have hc := mul_le_mul_of_nonneg_right h.criticalityScore h4
  have hi := mul_le_mul_of_nonneg_right h.agentIdentityScore h5
  have hp := mul_le_mul_of_nonneg_right h.agentCapabilityScore h6
  have hb := mul_le_mul_of_nonneg_right h.agentBehavioralScore h7
  unfold Evaluation.finalScore fuseScores
  rw [h.agentBundle]
  refine min_le_min le_rfl (max_le_max le_rfl ?_)
  unfold fusedSum Evaluation.streams
  simp only
  split
  · linarith
  · linarith

theorem hasLowConfidenceDimension_eq (h : first.RisesTo second) :
    first.inputs.semanticAnalysis.hasLowConfidenceDimension =
      second.inputs.semanticAnalysis.hasLowConfidenceDimension := by
  have hmapped : ∀ analysis : SemanticAnalysis, analysis.hasLowConfidenceDimension =
      (analysis.dimensionResults.map (·.confidence)).any fun confidence => confidence.val < 1 / 2 := by
    intro analysis
    rw [List.any_map]
    rfl
  rw [hmapped, hmapped, h.dimensionConfidences]

theorem semanticDominance_of (h : first.RisesTo second)
    (hfirst : semanticDominance rule first.inputs = true) :
    semanticDominance rule second.inputs = true := by
  unfold semanticDominance at hfirst ⊢
  simp only [Bool.and_eq_true, decide_eq_true_eq] at hfirst ⊢
  rw [← h.recommendedVerdict, ← h.evidenceSufficiency]
  exact ⟨⟨hfirst.1.1, hfirst.1.2.trans h.maxDimensionScore⟩, hfirst.2⟩

theorem forcesAbstain_eq (h : first.RisesTo second) :
    forcesAbstain first.inputs = forcesAbstain second.inputs := by
  unfold forcesAbstain
  rw [h.agentBundle]

theorem violatesCapability_eq (h : first.RisesTo second) :
    violatesCapability first.inputs = violatesCapability second.inputs := by
  unfold violatesCapability
  rw [h.agentBundle]

theorem findings_ne_nil (h : first.RisesTo second)
    (hblocked : first.inputs.deterministicResult.blocked = false)
    (hfindings : first.inputs.deterministicResult.findings ≠ []) :
    second.inputs.deterministicResult.findings ≠ [] := by
  rw [← deterministicScore_pos_iff (h.blocked ▸ hblocked)]
  exact ((deterministicScore_pos_iff hblocked).mpr hfindings).trans_le h.deterministicScore

theorem flags_covered (h : first.RisesTo second) (casefold : Str → Str)
    (hborder : isBorderline first.inputs (first.finalScore weights) = false)
    (hfired : semanticDominanceOverrideFired rule first.inputs = false) :
    Covers casefold (first.flags weights casefold rule) (second.flags weights casefold rule) := by
  refine Covers.trans (Covers.of_subset ?_) (keepFirst_covers _)
  intro flag hflag
  replace hflag := keepFirst_subset _ hflag
  unfold emittedFlags at hflag ⊢
  rw [hborder, hfired, h.semanticFlags, h.recommendedVerdict, h.confidence, h.policy,
    h.hasLowConfidenceDimension_eq, h.evidenceSufficiency, h.agentBundle,
    specialistFlags_rises casefold h.specialists] at hflag
  simp only [List.mem_append, Bool.false_eq_true, if_false, List.not_mem_nil, or_false] at hflag ⊢
  have hgate : flag ∈ (if first.inputs.deterministicResult.findings ≠ [] ∧
        (!first.inputs.deterministicResult.blocked) = true then
        [txt "deterministic_findings_present"] else []) →
      flag ∈ (if second.inputs.deterministicResult.findings ≠ [] ∧
        (!second.inputs.deterministicResult.blocked) = true then
        [txt "deterministic_findings_present"] else []) := by
    intro hmem
    split at hmem
    · rename_i hfirst
      have hblocked : first.inputs.deterministicResult.blocked = false := by
        simpa using hfirst.2
      rw [if_pos ⟨h.findings_ne_nil hblocked hfirst.1, by rw [← h.blocked]; exact hfirst.2⟩]
      exact hmem
    · cases hmem
  tauto

theorem lacksRetrievalContext_of (h : first.RisesTo second) (hweights : weights.Nonneg)
    (hscore : second.finalScore weights ≤ second.inputs.policy.permitThreshold.val)
    (hpermits : second.inputs.semanticAnalysis.recommendedVerdict.verdict = .permit)
    (hfirst : lacksRetrievalContext first.inputs (first.finalScore weights) casefold
      (first.flags weights casefold rule) = true) :
    lacksRetrievalContext second.inputs (second.finalScore weights) casefold
      (second.flags weights casefold rule) = true := by
  have hle := h.finalScore_le hweights
  unfold lacksRetrievalContext at hfirst ⊢
  simp only [Bool.and_eq_true, decide_eq_true_eq, List.any_eq_true] at hfirst ⊢
  obtain ⟨⟨flag, hflag, hnamed⟩, hpermit⟩ := hfirst
  rw [h.policy] at hpermit
  have hborder : isBorderline first.inputs (first.finalScore weights) = false := by
    unfold isBorderline
    rw [h.policy, Bool.and_eq_false_iff]
    exact .inl (decide_eq_false (not_lt.mpr (hle.trans hscore)))
  have hfired : semanticDominanceOverrideFired rule first.inputs = false := by
    rw [Bool.eq_false_iff]
    intro hfired
    have hforbid := semanticDominance_forbid (semanticDominanceOverrideFired_iff.mp hfired).2
    rw [h.recommendedVerdict, hpermits] at hforbid
    cases hforbid
  obtain ⟨flag', hflag', hsame⟩ := h.flags_covered casefold hborder hfired flag hflag
  exact ⟨⟨flag', hflag', hsame.trans hnamed⟩, hpermit.trans hle⟩

theorem shouldAbstain_of (h : first.RisesTo second) (hweights : weights.Nonneg)
    (hscore : second.finalScore weights ≤ second.inputs.policy.permitThreshold.val)
    (hretrieval : lacksRetrievalContext first.inputs (first.finalScore weights) casefold flags = true →
      lacksRetrievalContext second.inputs (second.finalScore weights) casefold flags' = true)
    (hfirst : shouldAbstain rule first.inputs (first.finalScore weights) first.confidence casefold
      flags = true) :
    shouldAbstain rule second.inputs (second.finalScore weights) second.confidence casefold
      flags' = true := by
  have hle := h.finalScore_le hweights
  have hbelow := hscore.trans_lt second.inputs.policy.permit_lt_forbid
  unfold shouldAbstain at hfirst ⊢
  simp only [Bool.or_eq_true] at hfirst ⊢
  rcases hfirst with (((((((((habstain | hconfidence) | hlow) | hevidence) | hrisk) |
    hstructural) | hcontext) | hborder) | hstreak) | hcold) | hpending
  · rw [h.recommendedVerdict] at habstain
    simp only [habstain, true_or]
  · rw [h.confidence, h.policy] at hconfidence
    simp only [hconfidence, true_or, or_true]
  · rw [h.hasLowConfidenceDimension_eq] at hlow
    simp only [hlow, true_or, or_true]
  · rw [h.evidenceSufficiency, h.policy] at hevidence
    simp only [Bool.and_eq_true, decide_eq_true_eq] at hevidence
    have hsecond : (decide (second.inputs.semanticAnalysis.evidenceSufficiency.val <
        rule.lowEvidenceFloor) && decide (second.inputs.policy.permitThreshold.val ≤
          second.finalScore weights)) = true := by
      simp only [Bool.and_eq_true, decide_eq_true_eq]
      exact ⟨hevidence.1, hevidence.2.trans hle⟩
    simp only [hsecond, true_or, or_true]
  · have hsecond : isSpecialistRisk rule second.inputs (second.finalScore weights) = true := by
      unfold isSpecialistRisk at hrisk ⊢
      simp only [Bool.and_eq_true, decide_eq_true_eq] at hrisk ⊢
      exact ⟨hrisk.1.trans (maxRiskScore_rises h.specialists), hbelow⟩
    simp only [hsecond, true_or, or_true]
  · have hsecond : isStructuralSpecialist rule second.inputs (second.finalScore weights) = true := by
      unfold isStructuralSpecialist at hstructural ⊢
      refine any_rises (fun a b hab ha => ?_) h.specialists hstructural
      simp only [Bool.and_eq_true, decide_eq_true_eq] at ha ⊢
      rw [← hab.specialistName, ← hab.matchedPolicyClauseIds]
      exact ⟨⟨⟨ha.1.1.1, ha.1.1.2.trans hab.riskScore⟩, ha.1.2⟩, hbelow⟩
    simp only [hsecond, true_or, or_true]
  · have hsecond := hretrieval hcontext
    simp only [hsecond, true_or, or_true]
  · unfold isBorderline at hborder
    simp only [Bool.and_eq_true, decide_eq_true_eq] at hborder
    rw [h.policy] at hborder
    exact absurd hborder.1 (not_lt.mpr (hle.trans hscore))
  · have hsecond : isForbidStreak rule second.inputs = true := by
      unfold isForbidStreak at hstreak ⊢
      rw [← h.agentBundle]
      exact hstreak
    simp only [hsecond, true_or, or_true]
  · have hsecond : isColdStart rule second.inputs (second.finalScore weights) = true := by
      unfold isColdStart at hcold ⊢
      rw [h.agentBundle, h.policy] at hcold
      simp only [Bool.and_eq_true, decide_eq_true_eq] at hcold ⊢
      exact ⟨hcold.1, hcold.2.trans hle⟩
    simp only [hsecond, true_or, or_true]
  · have hsecond : isPendingAgent rule second.inputs (second.finalScore weights) = true := by
      unfold isPendingAgent at hpending ⊢
      rw [h.agentBundle, h.policy] at hpending
      simp only [Bool.and_eq_true, decide_eq_true_eq] at hpending ⊢
      exact ⟨hpending.1, hpending.2.trans hle⟩
    simp only [hsecond, or_true]

theorem forbid_of (h : first.RisesTo second) (hweights : weights.Nonneg)
    (hfirst : determineVerdict rule first.inputs (first.finalScore weights) first.confidence casefold
      flags = .forbid) :
    determineVerdict rule second.inputs (second.finalScore weights) second.confidence casefold
      flags' = .forbid := by
  have hle := h.finalScore_le hweights
  rw [determineVerdict_forbid_iff] at hfirst ⊢
  rcases hfirst with hblocked | ⟨hforces, hrung⟩
  · rw [h.blocked] at hblocked
    exact .inl hblocked
  · rw [h.forcesAbstain_eq] at hforces
    refine .inr ⟨hforces, ?_⟩
    rcases hrung with hviolates | hdominance | ⟨hsoft, hpermit⟩ | hscore
    · rw [h.violatesCapability_eq] at hviolates
      exact .inl hviolates
    · exact .inr (.inl (h.semanticDominance_of hdominance))
    · rw [h.recommendedVerdict] at hsoft
      rw [h.policy] at hpermit
      exact .inr (.inr (.inl ⟨hsoft, hpermit.trans hle⟩))
    · rw [h.policy] at hscore
      exact .inr (.inr (.inr (hscore.trans hle)))

theorem determineVerdict_le (h : first.RisesTo second) (hweights : weights.Nonneg)
    (hretrieval : second.finalScore weights ≤ second.inputs.policy.permitThreshold.val →
      second.inputs.semanticAnalysis.recommendedVerdict.verdict = .permit →
      lacksRetrievalContext first.inputs (first.finalScore weights) casefold flags = true →
      lacksRetrievalContext second.inputs (second.finalScore weights) casefold flags' = true) :
    determineVerdict rule first.inputs (first.finalScore weights) first.confidence casefold flags ≤
      determineVerdict rule second.inputs (second.finalScore weights) second.confidence casefold
        flags' := by
  have hle := h.finalScore_le hweights
  have hpermit : determineVerdict rule second.inputs (second.finalScore weights) second.confidence
      casefold flags' = .permit → determineVerdict rule first.inputs (first.finalScore weights)
        first.confidence casefold flags = .permit := by
    intro hsecond
    rw [determineVerdict_permit_iff] at hsecond ⊢
    obtain ⟨hblocked, hforces, hviolates, hshould, hscore, hconfidence, hpermits⟩ := hsecond
    rw [h.blocked, h.forcesAbstain_eq, h.violatesCapability_eq, h.policy, h.recommendedVerdict]
    refine ⟨hblocked, hforces, hviolates, ?_, hle.trans hscore, h.confidence ▸ hconfidence, hpermits⟩
    rw [Bool.eq_false_iff] at hshould ⊢
    exact fun hfirst => hshould (h.shouldAbstain_of hweights hscore (hretrieval hscore hpermits) hfirst)
  cases hfirst : determineVerdict rule first.inputs (first.finalScore weights) first.confidence
    casefold flags with
  | permit => exact Nat.zero_le _
  | forbid => rw [h.forbid_of hweights hfirst]
  | abstain =>
    cases hsecond : determineVerdict rule second.inputs (second.finalScore weights) second.confidence
      casefold flags' with
    | permit =>
      rw [hpermit hsecond] at hfirst
      cases hfirst
    | abstain => exact le_rfl
    | forbid => decide

end Evaluation.RisesTo

theorem Evaluation.verdict_eq_router {evaluation : Evaluation} {fused : FusedEvidence}
    {weights : FusionWeights} (casefold : Str → Str) (rule : SelectiveRiskRule)
    (hscore : fused.finalScore.val = evaluation.finalScore weights)
    (hconfidence : fused.confidence.val = evaluation.confidence) :
    routerVerdict casefold rule evaluation.inputs fused = evaluation.verdict weights casefold rule := by
  unfold routerVerdict routerFlags Evaluation.verdict Evaluation.flags
  rw [hscore, hconfidence]

/-- The verdict does not become less cautious when scores rise, with the
router's own flags or with any one list of flags; and a missing agent's weight
goes to the content streams in their proportions. -/
theorem router_verdict_monotone {weights : FusionWeights} (hweights : weights.Nonneg) :
    (∀ rule casefold (first second : Evaluation), first.RisesTo second →
      first.verdict weights casefold rule ≤ second.verdict weights casefold rule ∧
      ∀ flags, determineVerdict rule first.inputs (first.finalScore weights) first.confidence
          casefold flags ≤
        determineVerdict rule second.inputs (second.finalScore weights) second.confidence
          casefold flags) ∧
    (effectiveWeights weights false).agentMass = 0 ∧
    (effectiveWeights weights false).contentMass = weights.total ∧
    SameRatios (effectiveWeights weights false) weights ∧
    (weights.total = 1 → ∀ scores, fuseScores scores weights false = fusedSum scores weights false ∧
      fusedSum scores weights false ∈ Set.Icc (0 : ℚ) 1) := by
  obtain ⟨hagent, htotal⟩ := effectiveWeights_total hweights
  refine ⟨fun rule casefold first second h => ⟨?_, fun flags => ?_⟩, hagent, htotal,
    effectiveWeights_ratios hweights, fun hnormal scores => fuseScores_unclamped hweights hnormal scores⟩
  · exact h.determineVerdict_le hweights fun hscore hpermits =>
      h.lacksRetrievalContext_of hweights hscore hpermits
  · refine h.determineVerdict_le hweights fun _ _ hfirst => ?_
    unfold lacksRetrievalContext at hfirst ⊢
    simp only [Bool.and_eq_true, decide_eq_true_eq] at hfirst ⊢
    rw [h.policy] at hfirst
    exact ⟨hfirst.1, hfirst.2.trans (h.finalScore_le hweights)⟩

def defaultFusionWeights : FusionWeights where
  deterministic := 234 / 1000
  specialists := 195 / 1000
  semantic := 273 / 1000
  criticality := 78 / 1000
  agentIdentity := 60 / 1000
  agentCapability := 90 / 1000
  agentBehavioral := 70 / 1000

theorem defaultFusionWeights_nonneg : defaultFusionWeights.Nonneg := by
  constructor <;> norm_num [defaultFusionWeights]

def samplePermitting (risk : UnitScore) : Evaluation where
  inputs :=
    { sampleQuarantined .active with
      specialistBundle := [⟨txt "argus", risk, [txt "provenance"], default⟩]
      semanticAnalysis :=
        { dimensionResults := List.replicate 5 ⟨⟨1 / 10, tenth_mem⟩, ⟨9 / 10, nineTenths_mem⟩⟩
          recommendedVerdict := ⟨.permit, ⟨9 / 10, nineTenths_mem⟩, default⟩
          evidenceSufficiency := ⟨9 / 10, nineTenths_mem⟩
          uncertaintyFlags := default } }
  specialistScore := risk
  criticalityScore := ⟨2 / 10, fifth_mem⟩
  agentIdentityScore := ⟨0, by norm_num⟩
  agentCapabilityScore := ⟨0, by norm_num⟩
  agentBehavioralScore := ⟨0, by norm_num⟩
  confidence := 9 / 10

theorem samplePermitting_rises {risk risk' : UnitScore} (h : risk.val ≤ risk'.val) :
    (samplePermitting risk).RisesTo (samplePermitting risk') := by
  constructor
  case specialists => exact .cons ⟨rfl, rfl, rfl, h⟩ .nil
  case specialistScore => exact h
  all_goals rfl

/-- A PERMIT becomes an ABSTAIN when the specialist's risk rises. -/
theorem router_verdict_monotone_sample :
    (samplePermitting ⟨1 / 10, by norm_num⟩).verdict defaultFusionWeights asciiLower
        defaultSelectiveRiskRule = .permit ∧
      (samplePermitting ⟨7 / 10, by norm_num⟩).verdict defaultFusionWeights asciiLower
        defaultSelectiveRiskRule = .abstain ∧
      (samplePermitting ⟨1 / 10, by norm_num⟩).verdict defaultFusionWeights asciiLower
          defaultSelectiveRiskRule ≤
        (samplePermitting ⟨7 / 10, by norm_num⟩).verdict defaultFusionWeights asciiLower
          defaultSelectiveRiskRule ∧
      (effectiveWeights defaultFusionWeights false).contentMass = defaultFusionWeights.total := by
  obtain ⟨hmono, -, htotal, -⟩ := router_verdict_monotone defaultFusionWeights_nonneg
  refine ⟨by with_unfolding_all decide, by with_unfolding_all decide, ?_, htotal⟩
  exact (hmono _ _ _ _ (samplePermitting_rises (by norm_num))).1

end TexGovernance.Engine
