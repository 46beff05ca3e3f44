import TexGovernance.Learning.DriftBound
import TexGovernance.Lib.RootRounding

/-!
# The direction of a calibration

The calibrator over any curve in place of the square root.
-/

namespace TexGovernance.Learning
open PyStr PyRepr PyDict PyJson PyFloat CaseFold Domain Stores

structure Curve (K : Type*) [Field K] [LinearOrder K] where
  value : K → K
  mono : MonotoneOn value (Set.Icc 0 1)
  zero : value 0 = 0
  one : value 1 = 1

noncomputable def Curve.sqrt : Curve ℝ where
  value := Real.sqrt
  mono := Real.sqrt_monotone.monotoneOn _
  zero := Real.sqrt_zero
  one := Real.sqrt_one

def withinTolerance : Str :=
  txt "Observed outcome profile is within tolerance; no threshold change is justified."

section Rates

variable (summary : OutcomeSummary)

def falsePermitRate : ℚ := safeRate summary.falsePermits summary.total
def falseForbidRate : ℚ := safeRate summary.falseForbids summary.total
def abstainReviewRate : ℚ := safeRate summary.abstainReviews summary.total
def unknownRate : ℚ := safeRate summary.unknown summary.total

def falseForbidsDominate : Prop := falseForbidRate summary > falsePermitRate summary + 3 / 100

end Rates

namespace ThresholdCalibrator

variable (c : ThresholdCalibrator)

structure Quiet (summary : OutcomeSummary) : Prop where
  permits : falsePermitRate summary ≤ c.targetFalsePermitRate
  forbids : c.targetFalseForbidRate < falseForbidRate summary → ¬ falseForbidsDominate summary
  abstains : abstainReviewRate summary < c.highAbstainReviewRate
  unknowns : unknownRate summary < c.highUnknownRate

/-- `_bounded_delta`, with a curve for the square root. -/
def boundedDeltaOn {K : Type*} [Field K] [LinearOrder K] [FloorRing K] (curve : Curve K)
    (severity sampleWeight ceiling : ℚ) : ℚ :=
  roundIn c.roundDigits (curve.value (clamp severity 0 1 : ℚ) * (clamp sampleWeight 0 1 : ℚ) * ceiling)

section Steps

-- the size of a step, from a severity, a weight and a ceiling
variable (step : ℚ → ℚ → ℚ → ℚ)

def tightenBy (falsePermitRate weight : ℚ) (t : Thresholds) : Thresholds :=
  if max 0 (falsePermitRate - c.targetFalsePermitRate) > 0 then
    let delta := step (relativeExcess falsePermitRate c.targetFalsePermitRate (35 / 100)) weight c.maxSingleAdjustment
    { permit := t.permit - delta
      forbid := t.forbid - delta * (90 / 100)
      confidence := t.confidence + min c.maxConfidenceAdjustment (delta * (65 / 100)) }
  else t

def easeBy (falseForbidRate falsePermitRate weight : ℚ) (t : Thresholds) : Thresholds :=
  if max 0 (falseForbidRate - c.targetFalseForbidRate) > 0 ∧ falseForbidRate > falsePermitRate + 3 / 100 then
    let delta := step (relativeExcess falseForbidRate c.targetFalseForbidRate (40 / 100)) weight c.maxSingleAdjustment
    { permit := t.permit + delta * (85 / 100)
      forbid := t.forbid + delta
      confidence := t.confidence - min c.maxConfidenceAdjustment (delta * (45 / 100)) }
  else t

def raiseForAbstainsBy (abstainReviewRate weight : ℚ) (t : Thresholds) : Thresholds :=
  if abstainReviewRate ≥ c.highAbstainReviewRate then
    let delta := step (relativeExcess abstainReviewRate c.highAbstainReviewRate (60 / 100)) weight
      c.maxConfidenceAdjustment
    { t with confidence := t.confidence + max (delta * (70 / 100)) (min c.maxConfidenceAdjustment (8 / 1000)) }
  else t

def raiseForUnknownBy (unknownRate weight : ℚ) (t : Thresholds) : Thresholds :=
  if unknownRate ≥ c.highUnknownRate then
    let delta := step (relativeExcess unknownRate c.highUnknownRate (35 / 100)) weight c.maxConfidenceAdjustment
    { t with confidence := t.confidence + max delta (min c.maxConfidenceAdjustment (1 / 100)) }
  else t

def adjustBy (start : Thresholds) (summary : OutcomeSummary) : Thresholds :=
  let weight := c.sampleWeight summary.total
  c.raiseForUnknownBy step (unknownRate summary) weight
    (c.raiseForAbstainsBy step (abstainReviewRate summary) weight
      (c.easeBy step (falseForbidRate summary) (falsePermitRate summary) weight
        (c.tightenBy step (falsePermitRate summary) weight start)))

/-- `recommend` with these steps; what it reports and the rates do not depend on them. -/
def recommendBy {fold : CaseFolding} (policy : PolicySnapshot fold) (summary : OutcomeSummary) :
    CalibrationRecommendation :=
  let start := thresholds policy
  let target :=
    if summary.total < c.minimumSampleSize then start else c.normalizeThresholds (c.adjustBy step start summary)
  { c.recommend policy summary with
    recommendedPermitThreshold := target.permit
    recommendedForbidThreshold := target.forbid
    recommendedMinimumConfidence := target.confidence
    permitThresholdDelta := roundTo c.roundDigits (target.permit - start.permit)
    forbidThresholdDelta := roundTo c.roundDigits (target.forbid - start.forbid)
    minimumConfidenceDelta := roundTo c.roundDigits (target.confidence - start.confidence) }

end Steps

theorem roundTo_zero (digits : ℕ) : roundTo digits 0 = 0 := by
  simp [roundTo, roundHalfEven]

theorem recommend_eq_recommendBy {fold : CaseFolding} (policy : PolicySnapshot fold) (summary : OutcomeSummary) :
    c.recommend policy summary = c.recommendBy c.boundedDelta policy summary := by
  have htighten (rate weight : ℚ) (draft : Draft) :
      (c.tighten rate weight draft).1 = c.tightenBy c.boundedDelta rate weight draft.1 := by
    unfold tighten tightenBy
    split <;> rfl
  have hease (rate permits weight : ℚ) (draft : Draft) :
      (c.ease rate permits weight draft).1 = c.easeBy c.boundedDelta rate permits weight draft.1 := by
    unfold ease easeBy
    split <;> rfl
  have habstains (rate weight : ℚ) (draft : Draft) :
      (c.raiseForAbstains rate weight draft).1 = c.raiseForAbstainsBy c.boundedDelta rate weight draft.1 := by
    unfold raiseForAbstains raiseForAbstainsBy
    split <;> rfl
  have hunknown (rate weight : ℚ) (draft : Draft) :
      (c.raiseForUnknown rate weight draft).1 = c.raiseForUnknownBy c.boundedDelta rate weight draft.1 := by
    unfold raiseForUnknown raiseForUnknownBy
    split <;> rfl
  unfold recommendBy adjustBy
  by_cases hsmall : summary.total < c.minimumSampleSize
  · simp only [if_pos hsmall, sub_self, roundTo_zero]
    unfold recommend
    simp only [if_pos hsmall]
  · simp only [if_neg hsmall]
    unfold recommend
    simp only [if_neg hsmall, hunknown, habstains, hease, htighten]
    rfl

/-- A sentence that is added just when `p` holds, and is not the one for no change. -/
structure Adds (p : Prop) (before after : List Str) : Prop where
  other : withinTolerance ∈ after → withinTolerance ∈ before
  empty : after = [] ↔ before = [] ∧ ¬ p

theorem adds_ite (p : Prop) [Decidable p] (t : Thresholds) (draft : Draft) {text : Str} (h : text ≠ withinTolerance) :
    Adds p draft.2 (if p then (t, draft.2 ++ [text]) else draft).2 := by
  by_cases hp : p
  · rw [if_pos hp]
    constructor
    · intro hmem
      obtain hbefore | hlast := List.mem_append.mp hmem
      · exact hbefore
      · exact absurd (List.mem_singleton.mp hlast).symm h
    · simp [hp]
  · rw [if_neg hp]
    exact ⟨id, by simp [hp]⟩

theorem max_sub_pos_iff {rate target : ℚ} : max 0 (rate - target) > 0 ↔ target < rate := by
  rw [gt_iff_lt, lt_max_iff, sub_pos, or_iff_right (lt_irrefl 0)]

theorem reports_no_change_iff {fold : CaseFolding} (policy : PolicySnapshot fold) (summary : OutcomeSummary) :
    (c.recommend policy summary).reasons = [withinTolerance] ↔
      c.minimumSampleSize ≤ summary.total ∧ c.Quiet summary := by
  by_cases hsmall : summary.total < c.minimumSampleSize
  · have hother : (c.recommend policy summary).reasons ≠ [withinTolerance] := by
      unfold recommend
      simp only [if_pos hsmall]
      intro hsame
      have hfirst := congrArg List.head? (List.cons.inj hsame).1
      cases hfirst
    exact ⟨fun h => absurd h hother, fun h => absurd h.1 (not_le.mpr hsmall)⟩
  · set weight := c.sampleWeight summary.total
    set tightened := c.tighten (falsePermitRate summary) weight (thresholds policy, []) with htightened
    set eased := c.ease (falseForbidRate summary) (falsePermitRate summary) weight tightened with heased
    set cautious := c.raiseForAbstains (abstainReviewRate summary) weight eased with hcautious
    set last := c.raiseForUnknown (unknownRate summary) weight cautious with hlast
    have hfirst : Adds _ [] tightened.2 := adds_ite _ _ (thresholds policy, []) (txt_inj.not.mpr (by simp))
    have hsecond : Adds _ tightened.2 eased.2 := adds_ite _ _ tightened (txt_inj.not.mpr (by simp))
    have hthird : Adds _ eased.2 cautious.2 := adds_ite _ _ eased (txt_inj.not.mpr (by simp))
    have hfourth : Adds _ cautious.2 last.2 := adds_ite _ _ cautious (txt_inj.not.mpr (by simp))
    have hreasons : (c.recommend policy summary).reasons = if last.2 = [] then [withinTolerance] else last.2 := by
      unfold recommend
      simp only [if_neg hsmall]
      rfl
    have hempty : last.2 = [] ↔ c.Quiet summary := by
      rw [hfourth.empty, hthird.empty, hsecond.empty, hfirst.empty, max_sub_pos_iff, max_sub_pos_iff, not_lt, not_le,
        not_le]
      constructor
      · intro h
        obtain ⟨⟨⟨⟨-, hpermits⟩, hforbids⟩, habstains⟩, hunknowns⟩ := h
        exact ⟨hpermits, fun hhigh hdominate => hforbids ⟨hhigh, hdominate⟩, habstains, hunknowns⟩
      · intro h
        exact ⟨⟨⟨⟨rfl, h.permits⟩, fun hboth => h.forbids hboth.1 hboth.2⟩, h.abstains⟩, h.unknowns⟩
    rw [hreasons]
    split
    · next hnone => exact ⟨fun _ => ⟨not_lt.mp hsmall, hempty.mp hnone⟩, fun _ => rfl⟩
    · next hsome =>
      refine ⟨fun h => ?_, fun h => absurd (hempty.mpr h.2) hsome⟩
      have hmem : withinTolerance ∈ last.2 := by
        rw [h]
        exact List.mem_singleton_self _
      cases hfirst.other (hsecond.other (hthird.other (hfourth.other hmem)))

/-- The ranges and the band of `_normalize_thresholds`. -/
structure SaneRanges (t : Thresholds) : Prop where
  permit : t.permit ∈ Set.Icc (5 / 100) (60 / 100)
  forbid : t.forbid ∈ Set.Icc (40 / 100) (95 / 100)
  band : c.minimumAbstainBand ≤ t.forbid - t.permit

/-- What `_normalize_thresholds` comes to, before it rounds. -/
def sane (t : Thresholds) : Thresholds where
  permit := clamp t.permit (5 / 100) (60 / 100)
  forbid := max (clamp t.forbid (40 / 100) (95 / 100)) (clamp t.permit (5 / 100) (60 / 100) + c.minimumAbstainBand)
  confidence := clamp t.confidence (40 / 100) (95 / 100)

theorem clamp_mem {lower upper : ℚ} (h : lower ≤ upper) (value : ℚ) : clamp value lower upper ∈ Set.Icc lower upper :=
  ⟨le_min h (le_max_left _ _), min_le_left _ _⟩

theorem clamp_of_mem {lower upper value : ℚ} (h : value ∈ Set.Icc lower upper) : clamp value lower upper = value := by
  rw [clamp, max_eq_right h.1, min_eq_right h.2]

theorem clamp_le_of_le {lower value start : ℚ} (upper : ℚ) (h : value ≤ start) (hstart : lower ≤ start) :
    clamp value lower upper ≤ start :=
  (min_le_right _ _).trans (max_le hstart h)

theorem le_clamp_of_le {upper value start : ℚ} (lower : ℚ) (h : start ≤ value) (hstart : start ≤ upper) :
    start ≤ clamp value lower upper :=
  le_min hstart (h.trans (le_max_right _ _))

theorem saneRanges_sane (t : Thresholds) : c.SaneRanges (c.sane t) := by
  have hpermit := clamp_mem (show (5 / 100 : ℚ) ≤ 60 / 100 by norm_num) t.permit
  have hforbid := clamp_mem (show (40 / 100 : ℚ) ≤ 95 / 100 by norm_num) t.forbid
  have hband := c.minimumAbstainBand_mem.2
  refine ⟨hpermit, ⟨hforbid.1.trans (le_max_left _ _), max_le hforbid.2 ?_⟩, ?_⟩
  · have hhigh := hpermit.2
    linarith
  · exact le_sub_iff_add_le'.mpr (le_max_right _ _)

theorem sane_eq_self_iff (t : Thresholds) :
    c.sane t = t ↔ c.SaneRanges t ∧ t.confidence ∈ Set.Icc (40 / 100) (95 / 100) := by
  constructor
  · intro h
    rw [← h]
    exact ⟨c.saneRanges_sane t, clamp_mem (by norm_num) t.confidence⟩
  · intro h
    obtain ⟨hranges, hconfidence⟩ := h
    have hband := hranges.band
    unfold sane
    rw [clamp_of_mem hranges.permit, clamp_of_mem hranges.forbid, clamp_of_mem hconfidence,
      max_eq_left (by linarith)]

theorem normalizeThresholds_eq (t : Thresholds) (axis : Axis) :
    (c.normalizeThresholds t).on axis = roundTo c.roundDigits ((c.sane t).on axis) := by
  have hpermit := clamp_mem (show (5 / 100 : ℚ) ≤ 60 / 100 by norm_num) t.permit
  have hroom : clamp t.permit (5 / 100) (60 / 100) + c.minimumAbstainBand ≤ 95 / 100 := by
    have hhigh := hpermit.2
    have hband := c.minimumAbstainBand_mem.2
    linarith
  unfold normalizeThresholds sane
  simp only
  rw [min_eq_right hroom]
  set permit := clamp t.permit (5 / 100) (60 / 100)
  set forbid := clamp t.forbid (40 / 100) (95 / 100)
  by_cases hnarrow : forbid ≤ permit + c.minimumAbstainBand
  · rw [if_pos hnarrow, max_eq_right hnarrow, add_sub_cancel_right, if_pos le_rfl, max_eq_right hpermit.1]
    cases axis <;> rfl
  · have hwide : ¬ permit ≥ forbid - c.minimumAbstainBand := by linarith
    rw [if_neg hnarrow, if_neg hwide, max_eq_left (by linarith)]
    cases axis <;> rfl

section Direction

variable (step : ℚ → ℚ → ℚ → ℚ)

/-- The thresholds that `recommendBy` comes to, before they are rounded. -/
def soughtBy (start : Thresholds) (summary : OutcomeSummary) : Thresholds :=
  if summary.total < c.minimumSampleSize then start else c.sane (c.adjustBy step start summary)

theorem recommended_recommendBy {fold : CaseFolding} (policy : PolicySnapshot fold) (summary : OutcomeSummary)
    (axis : Axis) : (recommended (c.recommendBy step policy summary)).on axis =
      if summary.total < c.minimumSampleSize then (thresholds policy).on axis
      else roundTo c.roundDigits ((c.soughtBy step (thresholds policy) summary).on axis) := by
  have hthresholds : recommended (c.recommendBy step policy summary) =
      if summary.total < c.minimumSampleSize then thresholds policy
      else c.normalizeThresholds (c.adjustBy step (thresholds policy) summary) := by
    unfold recommendBy
    split <;> rfl
  rw [hthresholds]
  unfold soughtBy
  split
  · rfl
  · exact c.normalizeThresholds_eq _ axis

theorem adjustBy_of_quiet {summary : OutcomeSummary} (h : c.Quiet summary) (start : Thresholds) :
    c.adjustBy step start summary = start := by
  have hease : ¬ (max 0 (falseForbidRate summary - c.targetFalseForbidRate) > 0 ∧
      falseForbidRate summary > falsePermitRate summary + 3 / 100) := fun hboth =>
    h.forbids (max_sub_pos_iff.mp hboth.1) hboth.2
  have htighten : ¬ max 0 (falsePermitRate summary - c.targetFalsePermitRate) > 0 := fun hhigh =>
    not_lt.mpr h.permits (max_sub_pos_iff.mp hhigh)
  simp only [adjustBy, raiseForUnknownBy, raiseForAbstainsBy, easeBy, tightenBy]
  rw [if_neg (not_le.mpr h.unknowns), if_neg (not_le.mpr h.abstains), if_neg hease, if_neg htighten]

def tighteningStep (summary : OutcomeSummary) : ℚ :=
  step (relativeExcess (falsePermitRate summary) c.targetFalsePermitRate (35 / 100)) (c.sampleWeight summary.total)
    c.maxSingleAdjustment

theorem adjustBy_of_tighten {summary : OutcomeSummary} (hhigh : c.targetFalsePermitRate < falsePermitRate summary)
    (hdominate : ¬ falseForbidsDominate summary) (hstep : 0 ≤ c.tighteningStep step summary) (start : Thresholds) :
    (c.adjustBy step start summary).permit = start.permit - c.tighteningStep step summary ∧
    (c.adjustBy step start summary).forbid = start.forbid - c.tighteningStep step summary * (90 / 100) ∧
    start.confidence ≤ (c.adjustBy step start summary).confidence := by
  have hcap := c.maxConfidenceAdjustment_mem.1
  have hease : ¬ (max 0 (falseForbidRate summary - c.targetFalseForbidRate) > 0 ∧
      falseForbidRate summary > falsePermitRate summary + 3 / 100) := fun hboth => hdominate hboth.2
  have hunknown (rate weight : ℚ) (t : Thresholds) : (c.raiseForUnknownBy step rate weight t).permit = t.permit ∧
      (c.raiseForUnknownBy step rate weight t).forbid = t.forbid ∧
      t.confidence ≤ (c.raiseForUnknownBy step rate weight t).confidence := by
    unfold raiseForUnknownBy
    split
    · exact ⟨rfl, rfl, le_add_of_nonneg_right (le_max_of_le_right (le_min hcap.le (by norm_num)))⟩
    · exact ⟨rfl, rfl, le_rfl⟩
  have habstains (rate weight : ℚ) (t : Thresholds) : (c.raiseForAbstainsBy step rate weight t).permit = t.permit ∧
      (c.raiseForAbstainsBy step rate weight t).forbid = t.forbid ∧
      t.confidence ≤ (c.raiseForAbstainsBy step rate weight t).confidence := by
    unfold raiseForAbstainsBy
    split
    · exact ⟨rfl, rfl, le_add_of_nonneg_right (le_max_of_le_right (le_min hcap.le (by norm_num)))⟩
    · exact ⟨rfl, rfl, le_rfl⟩
  have htightened : c.easeBy step (falseForbidRate summary) (falsePermitRate summary) (c.sampleWeight summary.total)
      (c.tightenBy step (falsePermitRate summary) (c.sampleWeight summary.total) start) =
      { permit := start.permit - c.tighteningStep step summary
        forbid := start.forbid - c.tighteningStep step summary * (90 / 100)
        confidence := start.confidence +
          min c.maxConfidenceAdjustment (c.tighteningStep step summary * (65 / 100)) } := by
    unfold easeBy tightenBy
    rw [if_neg hease, if_pos (max_sub_pos_iff.mpr hhigh)]
    rfl
  unfold adjustBy
  simp only
  rw [htightened]
  set tightened : Thresholds :=
    { permit := start.permit - c.tighteningStep step summary
      forbid := start.forbid - c.tighteningStep step summary * (90 / 100)
      confidence := start.confidence + min c.maxConfidenceAdjustment (c.tighteningStep step summary * (65 / 100)) }
    with htightened
  obtain ⟨hpermit, hforbid, hconfidence⟩ := habstains (abstainReviewRate summary) (c.sampleWeight summary.total)
    tightened
  obtain ⟨hpermit', hforbid', hconfidence'⟩ := hunknown (unknownRate summary) (c.sampleWeight summary.total)
    (c.raiseForAbstainsBy step (abstainReviewRate summary) (c.sampleWeight summary.total) tightened)
  refine ⟨hpermit'.trans hpermit, hforbid'.trans hforbid, le_trans ?_ (hconfidence.trans hconfidence')⟩
  exact le_add_of_nonneg_right (le_min hcap.le (by positivity))

structure JustifiedMove (start sought : Thresholds) (summary : OutcomeSummary) (reasons : List Str) : Prop where
  unchanged : reasons = [withinTolerance] → sought = start
  tightened : c.targetFalsePermitRate < falsePermitRate summary → ¬ falseForbidsDominate summary →
    sought.permit ≤ start.permit ∧ sought.forbid ≤ start.forbid ∧ start.confidence ≤ sought.confidence
  sane : c.minimumSampleSize ≤ summary.total → c.SaneRanges sought

structure FitsRanges (start : Thresholds) (summary : OutcomeSummary) : Prop where
  quiet : c.Quiet summary → c.SaneRanges start ∧ start.confidence ∈ Set.Icc (40 / 100) (95 / 100)
  tighten : c.targetFalsePermitRate < falsePermitRate summary → ¬ falseForbidsDominate summary →
    (5 / 100 ≤ start.permit ∧ 40 / 100 ≤ start.forbid ∧ start.confidence ≤ 95 / 100) ∧
    -- the band fits below the forbid threshold, over any permit threshold or over the tightened one
    (60 / 100 + c.minimumAbstainBand ≤ start.forbid ∨ 5 / 100 + c.minimumAbstainBand ≤ start.forbid ∧
      start.permit + c.minimumAbstainBand - start.forbid ≤ c.tighteningStep step summary)

theorem clamp_add_le_iff (value lower upper band bound : ℚ) :
    clamp value lower upper + band ≤ bound ↔
      upper + band ≤ bound ∨ lower + band ≤ bound ∧ value + band ≤ bound := by
  unfold clamp
  rw [← le_sub_iff_add_le, ← le_sub_iff_add_le, ← le_sub_iff_add_le, ← le_sub_iff_add_le, min_le_iff, max_le_iff]

theorem tightened_iff {summary : OutcomeSummary} (hhigh : c.targetFalsePermitRate < falsePermitRate summary)
    (hdominate : ¬ falseForbidsDominate summary) (hstep : 0 ≤ c.tighteningStep step summary) (start : Thresholds) :
    ((c.sane (c.adjustBy step start summary)).permit ≤ start.permit ∧
      (c.sane (c.adjustBy step start summary)).forbid ≤ start.forbid ∧
      start.confidence ≤ (c.sane (c.adjustBy step start summary)).confidence) ↔
    (5 / 100 ≤ start.permit ∧ 40 / 100 ≤ start.forbid ∧ start.confidence ≤ 95 / 100) ∧
    (60 / 100 + c.minimumAbstainBand ≤ start.forbid ∨ 5 / 100 + c.minimumAbstainBand ≤ start.forbid ∧
      start.permit + c.minimumAbstainBand - start.forbid ≤ c.tighteningStep step summary) := by
  obtain ⟨hpermit, hforbid, hconfidence⟩ := c.adjustBy_of_tighten step hhigh hdominate hstep start
  set delta := c.tighteningStep step summary
  have hroom : clamp (c.adjustBy step start summary).permit (5 / 100) (60 / 100) + c.minimumAbstainBand ≤
      start.forbid ↔
      60 / 100 + c.minimumAbstainBand ≤ start.forbid ∨ 5 / 100 + c.minimumAbstainBand ≤ start.forbid ∧
        start.permit + c.minimumAbstainBand - start.forbid ≤ delta := by
    rw [clamp_add_le_iff, hpermit]
    constructor
    · intro h
      refine h.imp_right fun hlow => ⟨hlow.1, ?_⟩
      linarith [hlow.2]
    · intro h
      refine h.imp_right fun hlow => ⟨hlow.1, ?_⟩
      linarith [hlow.2]
  rw [← hroom]
  unfold sane
  simp only
  rw [max_le_iff]
  constructor
  · intro h
    obtain ⟨hlower, ⟨hkept, hband⟩, hhigher⟩ := h
    have hfloor := (clamp_mem (show (5 / 100 : ℚ) ≤ 60 / 100 by norm_num) (c.adjustBy step start summary).permit).1
    have hfloor' := (clamp_mem (show (40 / 100 : ℚ) ≤ 95 / 100 by norm_num) (c.adjustBy step start summary).forbid).1
    have hceiling := (clamp_mem (show (40 / 100 : ℚ) ≤ 95 / 100 by norm_num)
      (c.adjustBy step start summary).confidence).2
    exact ⟨⟨hfloor.trans hlower, hfloor'.trans hkept, hhigher.trans hceiling⟩, hband⟩
  · intro h
    obtain ⟨⟨hfloor, hfloor', hceiling⟩, hband⟩ := h
    refine ⟨clamp_le_of_le _ ?_ hfloor, ⟨clamp_le_of_le _ ?_ hfloor', hband⟩, le_clamp_of_le _ hconfidence hceiling⟩
    · linarith
    · linarith

theorem justifiedMove_iff {fold : CaseFolding} (policy : PolicySnapshot fold) (summary : OutcomeSummary)
    (hstep : 0 ≤ c.tighteningStep step summary) :
    c.JustifiedMove (thresholds policy) (c.soughtBy step (thresholds policy) summary) summary
        (c.recommendBy step policy summary).reasons ↔
      (c.minimumSampleSize ≤ summary.total → c.FitsRanges step (thresholds policy) summary) := by
  have hreasons : (c.recommendBy step policy summary).reasons = [withinTolerance] ↔
      c.minimumSampleSize ≤ summary.total ∧ c.Quiet summary := c.reports_no_change_iff policy summary
  unfold soughtBy
  by_cases hsmall : summary.total < c.minimumSampleSize
  · rw [if_pos hsmall]
    refine ⟨fun _ hlarge => absurd hlarge (not_le.mpr hsmall), fun _ => ⟨fun _ => rfl, fun _ _ => ?_, fun hlarge => ?_⟩⟩
    · exact ⟨le_rfl, le_rfl, le_rfl⟩
    · exact absurd hlarge (not_le.mpr hsmall)
  · have hlarge : c.minimumSampleSize ≤ summary.total := not_lt.mp hsmall
    rw [if_neg hsmall]
    constructor
    · intro h _
      refine ⟨fun hquiet => ?_, fun hhigh hdominate => ?_⟩
      · have hsame := h.unchanged (hreasons.mpr ⟨hlarge, hquiet⟩)
        rw [c.adjustBy_of_quiet step hquiet] at hsame
        exact (c.sane_eq_self_iff _).mp hsame
      · exact (c.tightened_iff step hhigh hdominate hstep _).mp (h.tightened hhigh hdominate)
    · intro h
      refine ⟨fun hreported => ?_, fun hhigh hdominate => ?_, fun _ => c.saneRanges_sane _⟩
      · have hquiet := (hreasons.mp hreported).2
        rw [c.adjustBy_of_quiet step hquiet]
        exact (c.sane_eq_self_iff _).mpr ((h hlarge).quiet hquiet)
      · exact (c.tightened_iff step hhigh hdominate hstep _).mpr ((h hlarge).tighten hhigh hdominate)

end Direction

theorem curve_nonneg {K : Type*} [Field K] [LinearOrder K] [IsStrictOrderedRing K] (curve : Curve K) {x : K}
    (h : x ∈ Set.Icc 0 1) : 0 ≤ curve.value x := by
  have hmono := curve.mono (Set.left_mem_Icc.mpr zero_le_one) h h.1
  rwa [curve.zero] at hmono

theorem boundedDeltaOn_nonneg {K : Type*} [Field K] [LinearOrder K] [FloorRing K] [IsStrictOrderedRing K]
    (curve : Curve K) (severity weight : ℚ) {ceiling : ℚ} (h : 0 ≤ ceiling) :
    0 ≤ c.boundedDeltaOn curve severity weight ceiling := by
  have hseverity := clamp_mem (zero_le_one' ℚ) severity
  have hweight := (clamp_mem (zero_le_one' ℚ) weight).1
  have hunit : ((clamp severity 0 1 : ℚ) : K) ∈ Set.Icc 0 1 :=
    ⟨by exact_mod_cast hseverity.1, by exact_mod_cast hseverity.2⟩
  exact roundIn_nonneg _ (mul_nonneg (mul_nonneg (curve_nonneg curve hunit) (by exact_mod_cast hweight))
    (by exact_mod_cast h))

theorem boundedDelta_eq (severity weight : ℚ) {ceiling : ℚ} (h : 0 ≤ ceiling) :
    c.boundedDelta severity weight ceiling = c.boundedDeltaOn Curve.sqrt severity weight ceiling := by
  have hseverity := (clamp_mem (zero_le_one' ℚ) severity).1
  have hweight := (clamp_mem (zero_le_one' ℚ) weight).1
  have hscaled : 0 ≤ clamp weight 0 1 * ceiling := mul_nonneg hweight h
  unfold boundedDelta boundedDeltaOn
  rw [roundRoot_eq (mul_nonneg hseverity (sq_nonneg _))]
  have hroot : √((clamp severity 0 1 * (clamp weight 0 1 * ceiling) ^ 2 : ℚ) : ℝ) =
      √((clamp severity 0 1 : ℚ) : ℝ) * (clamp weight 0 1 : ℚ) * ceiling := by
    push_cast
    rw [Real.sqrt_mul (by exact_mod_cast hseverity), Real.sqrt_sq (by exact_mod_cast hscaled), mul_assoc]
  rw [hroot]
  rfl

theorem recommend_eq_recommendBy_sqrt {fold : CaseFolding} (policy : PolicySnapshot fold) (summary : OutcomeSummary) :
    c.recommend policy summary = c.recommendBy (c.boundedDeltaOn Curve.sqrt) policy summary := by
  have hsingle (severity weight : ℚ) := c.boundedDelta_eq severity weight c.maxSingleAdjustment_mem.1.le
  have hconfidence (severity weight : ℚ) := c.boundedDelta_eq severity weight c.maxConfidenceAdjustment_mem.1.le
  rw [recommend_eq_recommendBy]
  unfold recommendBy adjustBy raiseForUnknownBy raiseForAbstainsBy easeBy tightenBy
  simp only [hsingle, hconfidence]

/-- For every curve in place of the square root: what is recommended is the thresholds sought,
rounded, and these are a justified move just when the policy fits the ranges. -/
theorem calibration_justified_iff {K : Type*} [Field K] [LinearOrder K] [FloorRing K] [IsStrictOrderedRing K]
    (curve : Curve K) {fold : CaseFolding} (policy : PolicySnapshot fold) (summary : OutcomeSummary) :
    (∀ axis, (recommended (c.recommendBy (c.boundedDeltaOn curve) policy summary)).on axis =
      if summary.total < c.minimumSampleSize then (thresholds policy).on axis
      else roundTo c.roundDigits ((c.soughtBy (c.boundedDeltaOn curve) (thresholds policy) summary).on axis)) ∧
    (c.JustifiedMove (thresholds policy) (c.soughtBy (c.boundedDeltaOn curve) (thresholds policy) summary) summary
        (c.recommendBy (c.boundedDeltaOn curve) policy summary).reasons ↔
      (c.minimumSampleSize ≤ summary.total → c.FitsRanges (c.boundedDeltaOn curve) (thresholds policy) summary)) :=
  ⟨c.recommended_recommendBy _ policy summary,
    c.justifiedMove_iff _ policy summary (c.boundedDeltaOn_nonneg curve _ _ c.maxSingleAdjustment_mem.1.le)⟩

def straight : Curve ℚ where
  value := id
  mono := monotone_id.monotoneOn _
  zero := rfl
  one := rfl

theorem sample_justified : buildDefaultCalibrator.JustifiedMove (thresholds basePolicy)
    (buildDefaultCalibrator.soughtBy (buildDefaultCalibrator.boundedDeltaOn straight) (thresholds basePolicy)
      ⟨50, 10, 0, 0, 0⟩) ⟨50, 10, 0, 0, 0⟩
    (buildDefaultCalibrator.recommendBy (buildDefaultCalibrator.boundedDeltaOn straight) basePolicy
      ⟨50, 10, 0, 0, 0⟩).reasons := by
  refine (calibration_justified_iff buildDefaultCalibrator straight basePolicy ⟨50, 10, 0, 0, 0⟩).2.mpr ?_
  intro _
  refine ⟨fun _ => ⟨⟨?_, ?_, ?_⟩, ?_⟩, fun _ _ => ⟨⟨?_, ?_, ?_⟩, .inr ⟨?_, ?_⟩⟩⟩
  all_goals with_unfolding_all decide

def strictPolicy : PolicySnapshot foldedTexts := { basePolicy with permitThreshold := 2 / 100 }

/-- A sample within tolerance, and one of many false permits: either raises the permit threshold. -/
theorem strict_policy_loosened :
    (buildDefaultCalibrator.recommendBy (buildDefaultCalibrator.boundedDeltaOn straight) strictPolicy
      ⟨50, 0, 0, 0, 0⟩).reasons = [withinTolerance] ∧
    (recommended (buildDefaultCalibrator.recommendBy (buildDefaultCalibrator.boundedDeltaOn straight) strictPolicy
      ⟨50, 0, 0, 0, 0⟩)).permit = 5 / 100 ∧
    buildDefaultCalibrator.targetFalsePermitRate < falsePermitRate ⟨50, 10, 0, 0, 0⟩ ∧
    ¬ falseForbidsDominate ⟨50, 10, 0, 0, 0⟩ ∧
    (recommended (buildDefaultCalibrator.recommendBy (buildDefaultCalibrator.boundedDeltaOn straight) strictPolicy
      ⟨50, 10, 0, 0, 0⟩)).permit = 5 / 100 ∧
    (thresholds strictPolicy).permit = 2 / 100 := by
  unfold falseForbidsDominate
  set_option maxRecDepth 10000 in with_unfolding_all decide

end ThresholdCalibrator

end TexGovernance.Learning
