import TexGovernance.Lib.PyFloat
import TexGovernance.Stores.ProposalStore

/-!
# The threshold calibrator and its safety guard

`ThresholdCalibrator` (`learning/calibrator.py`) in exact arithmetic: what it recommends for a
policy and a summary of outcomes, and the policy that a recommendation makes.
-/

namespace TexGovernance.Learning
open PyStr PyRepr PyJson PyFloat CaseFold Domain Stores

inductive Axis where
  | permit
  | forbid
  | confidence
  deriving DecidableEq

structure Thresholds where
  permit : ℚ
  forbid : ℚ
  confidence : ℚ
  deriving DecidableEq

def Thresholds.on (t : Thresholds) : Axis → ℚ
  | .permit => t.permit
  | .forbid => t.forbid
  | .confidence => t.confidence

def thresholds {fold : CaseFolding} (policy : PolicySnapshot fold) : Thresholds :=
  ⟨policy.permitThreshold, policy.forbidThreshold, policy.minimumConfidence⟩

section Recommendation

variable (r : CalibrationRecommendation)

def current : Thresholds :=
  ⟨r.currentPermitThreshold, r.currentForbidThreshold, r.currentMinimumConfidence⟩

def recommended : Thresholds :=
  ⟨r.recommendedPermitThreshold, r.recommendedForbidThreshold, r.recommendedMinimumConfidence⟩

def deltas : Thresholds := ⟨r.permitThresholdDelta, r.forbidThresholdDelta, r.minimumConfidenceDelta⟩

end Recommendation

/-- `OutcomeSummary` (`learning/outcomes.py`), the counts that the calibrator reads. -/
structure OutcomeSummary where
  total : ℤ
  falsePermits : ℤ
  falseForbids : ℤ
  abstainReviews : ℤ
  unknown : ℤ

structure ThresholdCalibrator where
  minimumSampleSize : ℤ
  fullTrustSampleSize : ℤ
  maxSingleAdjustment : ℚ
  maxConfidenceAdjustment : ℚ
  targetFalsePermitRate : ℚ
  targetFalseForbidRate : ℚ
  highAbstainReviewRate : ℚ
  highUnknownRate : ℚ
  minimumAbstainBand : ℚ
  roundDigits : ℕ
  minimumSampleSize_pos : 0 < minimumSampleSize
  fullTrust_ge : minimumSampleSize ≤ fullTrustSampleSize
  maxSingleAdjustment_mem : maxSingleAdjustment ∈ Set.Ioc 0 (1 / 5)
  maxConfidenceAdjustment_mem : maxConfidenceAdjustment ∈ Set.Ioc 0 (1 / 10)
  targetFalsePermitRate_mem : targetFalsePermitRate ∈ Set.Ico 0 1
  targetFalseForbidRate_mem : targetFalseForbidRate ∈ Set.Ico 0 1
  target_le : targetFalsePermitRate ≤ targetFalseForbidRate
  highAbstainReviewRate_mem : highAbstainReviewRate ∈ Set.Ico 0 1
  highUnknownRate_mem : highUnknownRate ∈ Set.Ico 0 1
  minimumAbstainBand_mem : minimumAbstainBand ∈ Set.Icc (1 / 20) (3 / 10)

/-- `build_default_calibrator`. -/
def buildDefaultCalibrator : ThresholdCalibrator where
  minimumSampleSize := 12
  fullTrustSampleSize := 50
  maxSingleAdjustment := 5 / 100
  maxConfidenceAdjustment := 3 / 100
  targetFalsePermitRate := 4 / 100
  targetFalseForbidRate := 8 / 100
  highAbstainReviewRate := 30 / 100
  highUnknownRate := 12 / 100
  minimumAbstainBand := 10 / 100
  roundDigits := 4
  minimumSampleSize_pos := by decide
  fullTrust_ge := by decide
  maxSingleAdjustment_mem := by norm_num
  maxConfidenceAdjustment_mem := by norm_num
  targetFalsePermitRate_mem := by norm_num
  targetFalseForbidRate_mem := by norm_num
  target_le := by norm_num
  highAbstainReviewRate_mem := by norm_num
  highUnknownRate_mem := by norm_num
  minimumAbstainBand_mem := by norm_num

/-- `_clamp`. -/
def clamp (value lower upper : ℚ) : ℚ := min upper (max lower value)

/-- `_safe_rate`. -/
def safeRate (count total : ℤ) : ℚ := if total ≤ 0 then 0 else count / total

/-- `_relative_excess`. -/
def relativeExcess (observed target maxRate : ℚ) : ℚ :=
  if observed ≤ target then 0 else min 1 ((observed - target) / max (maxRate - target) (1 / 10 ^ 9))

namespace ThresholdCalibrator

variable (c : ThresholdCalibrator)

/-- `_sample_weight`. -/
def sampleWeight (total : ℤ) : ℚ :=
  if total < c.minimumSampleSize then 0
  else if total ≥ c.fullTrustSampleSize then 1
  else
    let span := c.fullTrustSampleSize - c.minimumSampleSize
    if span ≤ 0 then 1 else (total - c.minimumSampleSize) / span

/-- `_bounded_delta`: the root is under the weight and the ceiling. -/
def boundedDelta (severity sampleWeight ceiling : ℚ) : ℚ :=
  roundRoot c.roundDigits (clamp severity 0 1 * (clamp sampleWeight 0 1 * ceiling) ^ 2)

/-- `_normalize_thresholds`. -/
def normalizeThresholds (t : Thresholds) : Thresholds :=
  let permit := clamp t.permit (5 / 100) (60 / 100)
  let forbid := clamp t.forbid (40 / 100) (95 / 100)
  let confidence := clamp t.confidence (40 / 100) (95 / 100)
  let forbid :=
    if forbid ≤ permit + c.minimumAbstainBand then min (95 / 100) (permit + c.minimumAbstainBand) else forbid
  let permit :=
    if permit ≥ forbid - c.minimumAbstainBand then max (5 / 100) (forbid - c.minimumAbstainBand) else permit
  ⟨roundTo c.roundDigits permit, roundTo c.roundDigits forbid, roundTo c.roundDigits confidence⟩

abbrev Draft := Thresholds × List Str

def tighten (falsePermitRate weight : ℚ) (draft : Draft) : Draft :=
  if max 0 (falsePermitRate - c.targetFalsePermitRate) > 0 then
    let severity := relativeExcess falsePermitRate c.targetFalsePermitRate (35 / 100)
    let delta := c.boundedDelta severity weight c.maxSingleAdjustment
    ({ permit := draft.1.permit - delta
       forbid := draft.1.forbid - delta * (90 / 100)
       confidence := draft.1.confidence + min c.maxConfidenceAdjustment (delta * (65 / 100)) },
      draft.2 ++ [txt "False permits exceed the target rate; tightening permit and forbid thresholds and raising minimum confidence."])
  else draft

def ease (falseForbidRate falsePermitRate weight : ℚ) (draft : Draft) : Draft :=
  if max 0 (falseForbidRate - c.targetFalseForbidRate) > 0 ∧ falseForbidRate > falsePermitRate + 3 / 100 then
    let severity := relativeExcess falseForbidRate c.targetFalseForbidRate (40 / 100)
    let delta := c.boundedDelta severity weight c.maxSingleAdjustment
    ({ permit := draft.1.permit + delta * (85 / 100)
       forbid := draft.1.forbid + delta
       confidence := draft.1.confidence - min c.maxConfidenceAdjustment (delta * (45 / 100)) },
      draft.2 ++ [txt "False forbids materially exceed false permits; easing thresholds slightly to reduce over-blocking."])
  else draft

def raiseForAbstains (abstainReviewRate weight : ℚ) (draft : Draft) : Draft :=
  if abstainReviewRate ≥ c.highAbstainReviewRate then
    let severity := relativeExcess abstainReviewRate c.highAbstainReviewRate (60 / 100)
    let delta := c.boundedDelta severity weight c.maxConfidenceAdjustment
    ({ draft.1 with
       confidence := draft.1.confidence + max (delta * (70 / 100)) (min c.maxConfidenceAdjustment (8 / 1000)) },
      draft.2 ++ [txt "Abstain-review volume is high; raising minimum confidence slightly to keep automatic permits conservative."])
  else draft

def raiseForUnknown (unknownRate weight : ℚ) (draft : Draft) : Draft :=
  if unknownRate ≥ c.highUnknownRate then
    let severity := relativeExcess unknownRate c.highUnknownRate (35 / 100)
    let delta := c.boundedDelta severity weight c.maxConfidenceAdjustment
    ({ draft.1 with confidence := draft.1.confidence + max delta (min c.maxConfidenceAdjustment (1 / 100)) },
      draft.2 ++ [txt "Unknown outcome volume is elevated; increasing minimum confidence to reduce unsupported automatic permits."])
  else draft

def intDigits (z : ℤ) : Str := if z < 0 then cp '-' :: natText z.natAbs else natText z.natAbs

def recommend {fold : CaseFolding} (policy : PolicySnapshot fold) (summary : OutcomeSummary) :
    CalibrationRecommendation :=
  let start := thresholds policy
  let falsePermitRate := safeRate summary.falsePermits summary.total
  let falseForbidRate := safeRate summary.falseForbids summary.total
  let abstainReviewRate := safeRate summary.abstainReviews summary.total
  let unknownRate := safeRate summary.unknown summary.total
  if summary.total < c.minimumSampleSize then
    { currentPermitThreshold := start.permit
      recommendedPermitThreshold := start.permit
      currentForbidThreshold := start.forbid
      recommendedForbidThreshold := start.forbid
      currentMinimumConfidence := start.confidence
      recommendedMinimumConfidence := start.confidence
      sampleTotal := summary.total
      reasons := [txt "Sample too small for calibration (" ++ intDigits summary.total ++ txt " < " ++
        intDigits c.minimumSampleSize ++ txt ")."]
      falsePermitRate
      falseForbidRate
      abstainReviewRate
      unknownRate
      sampleWeight := 0
      permitThresholdDelta := 0
      forbidThresholdDelta := 0
      minimumConfidenceDelta := 0 }
  else
    let weight := c.sampleWeight summary.total
    let draft := c.raiseForUnknown unknownRate weight (c.raiseForAbstains abstainReviewRate weight
      (c.ease falseForbidRate falsePermitRate weight (c.tighten falsePermitRate weight (start, []))))
    let target := c.normalizeThresholds draft.1
    { currentPermitThreshold := start.permit
      recommendedPermitThreshold := target.permit
      currentForbidThreshold := start.forbid
      recommendedForbidThreshold := target.forbid
      currentMinimumConfidence := start.confidence
      recommendedMinimumConfidence := target.confidence
      sampleTotal := summary.total
      reasons :=
        if draft.2 = [] then
          [txt "Observed outcome profile is within tolerance; no threshold change is justified."]
        else draft.2
      falsePermitRate := roundTo c.roundDigits falsePermitRate
      falseForbidRate := roundTo c.roundDigits falseForbidRate
      abstainReviewRate := roundTo c.roundDigits abstainReviewRate
      unknownRate := roundTo c.roundDigits unknownRate
      sampleWeight := roundTo c.roundDigits weight
      permitThresholdDelta := roundTo c.roundDigits (target.permit - start.permit)
      forbidThresholdDelta := roundTo c.roundDigits (target.forbid - start.forbid)
      minimumConfidenceDelta := roundTo c.roundDigits (target.confidence - start.confidence) }

theorem current_recommend {fold : CaseFolding} (policy : PolicySnapshot fold) (summary : OutcomeSummary) :
    current (c.recommend policy summary) = thresholds policy := by
  unfold recommend
  simp only
  split
  · rfl
  · rfl

end ThresholdCalibrator

/-- `dict(items)` updated with a key. -/
def updated (items : List (Str × PyObj)) (key : Str) (value : PyObj) : List (Str × PyObj) :=
  if items.any fun item => item.1 = key then items.map fun item => if item.1 = key then (key, value) else item
  else items ++ [(key, value)]

theorem lookup_updated_of_ne {items : List (Str × PyObj)} {key other : Str} (h : other ≠ key) (value : PyObj) :
    (updated items key value).lookup other = items.lookup other := by
  have hne : (other == key) = false := beq_eq_false_iff_ne.mpr h
  have hreplaced : (items.map fun item => if item.1 = key then (key, value) else item).lookup other =
      items.lookup other := by
    induction items with
    | nil => rfl
    | cons item items ih =>
      rw [List.map_cons]
      by_cases hitem : item.1 = key
      · rw [if_pos hitem, List.lookup_cons, List.lookup_cons, ih, hitem, hne]
      · rw [if_neg hitem, List.lookup_cons, List.lookup_cons, ih]
  unfold updated
  split
  · exact hreplaced
  · rw [List.lookup_append]
    simp [List.lookup_cons, hne]

section Apply

-- `float` is the text that Python writes for a float
variable (float : ℚ → NumberText) {fold : CaseFolding}

def thresholdItems (suffix : Str) (t : Thresholds) : PyObj :=
  .dict [(txt "permit_threshold" ++ suffix, .float (float t.permit)),
    (txt "forbid_threshold" ++ suffix, .float (float t.forbid)),
    (txt "minimum_confidence" ++ suffix, .float (float t.confidence))]

/-- The metadata that is merged in by `apply_recommendation`. -/
def calibrationItems (policy : PolicySnapshot fold) (r : CalibrationRecommendation) : List (Str × PyObj) :=
  [(txt "calibration_parent_version", .str policy.version.text),
    (txt "calibration", .dict [
      (txt "source_policy_version", .str policy.version.text),
      (txt "sample_total", .int r.sampleTotal),
      (txt "sample_weight", .float (float r.sampleWeight)),
      (txt "false_permit_rate", .float (float r.falsePermitRate)),
      (txt "false_forbid_rate", .float (float r.falseForbidRate)),
      (txt "abstain_review_rate", .float (float r.abstainReviewRate)),
      (txt "unknown_rate", .float (float r.unknownRate)),
      (txt "current_thresholds", thresholdItems float [] (current r)),
      (txt "recommended_thresholds", thresholdItems float [] (recommended r)),
      (txt "deltas", thresholdItems float (txt "_delta") (deltas r)),
      (txt "reasons", .list (r.reasons.map .str)),
      (txt "changed", .bool r.changed)])]

/-- `metadata` of the settings, which is a dict. -/
def metadataOf (policy : PolicySnapshot fold) : List (Str × PyObj) :=
  match policy.settings.lookup (txt "metadata") with
  | some (.dict items) => items
  | _ => []

/-- `apply_recommendation` with `activate=True`; the copy is not validated. -/
def applyRecommendation (policy : PolicySnapshot fold) (r : CalibrationRecommendation) (newVersion : FieldText 100)
    (metadataUpdates : List (Str × PyObj)) : Except PyErr (PolicySnapshot fold) :=
  if h : strip newVersion.text = [] then .error .valueError
  else .ok { policy with
    version := newVersion.strip h
    stripped := strip_strip newVersion.text
    isActive := true
    permitThreshold := r.recommendedPermitThreshold
    forbidThreshold := r.recommendedForbidThreshold
    minimumConfidence := r.recommendedMinimumConfidence
    settings := updated policy.settings (txt "metadata") (.dict
      ((calibrationItems float policy r ++ metadataUpdates).foldl (fun items item => updated items item.1 item.2)
        (metadataOf policy))) }

end Apply

end TexGovernance.Learning

/-!
## The calibration safety guard

`CalibrationSafetyGuard` (`learning/calibration_safety.py`) in exact arithmetic. `evaluate`
checks a recommendation against what was recorded and clips it; `commit` records what an
application moved. Instants and intervals are in microseconds.
-/

namespace TexGovernance.Learning
open PyStr PyRepr PyDict PyJson PyFloat CaseFold Domain Stores

structure CalibrationSafetyGuard where
  maxPermitDelta : ℚ
  maxForbidDelta : ℚ
  maxConfidenceDelta : ℚ
  cumulativeBudget : ℚ
  cumulativeWindow : ℤ
  minInterval : ℤ
  maxPermitDelta_mem : maxPermitDelta ∈ Set.Ioc 0 (1 / 5)
  maxForbidDelta_mem : maxForbidDelta ∈ Set.Ioc 0 (1 / 5)
  maxConfidenceDelta_mem : maxConfidenceDelta ∈ Set.Ioc 0 (1 / 10)
  cumulativeBudget_mem : cumulativeBudget ∈ Set.Ioc 0 (3 / 10)
  cumulativeWindow_pos : 0 < cumulativeWindow
  minInterval_nonneg : 0 ≤ minInterval

def CalibrationSafetyGuard.default : CalibrationSafetyGuard where
  maxPermitDelta := 4 / 100
  maxForbidDelta := 4 / 100
  maxConfidenceDelta := 3 / 100
  cumulativeBudget := 10 / 100
  cumulativeWindow := 24 * 3600 * 1000000
  minInterval := 3600 * 1000000
  maxPermitDelta_mem := by norm_num
  maxForbidDelta_mem := by norm_num
  maxConfidenceDelta_mem := by norm_num
  cumulativeBudget_mem := by norm_num
  cumulativeWindow_pos := by norm_num
  minInterval_nonneg := by norm_num

structure Movement where
  instant : ℤ
  moved : Thresholds
  deriving DecidableEq

structure PolicyMovementHistory where
  events : List Movement
  lastCalibratedAt : Option ℤ
  deriving DecidableEq

def PolicyMovementHistory.new : PolicyMovementHistory := ⟨[], none⟩

abbrev Histories := Dict Str PolicyMovementHistory

def historyOf (histories : Histories) (policyId : Str) : PolicyMovementHistory :=
  (histories.get? policyId).getD .new

structure SafetyDecision where
  allowed : Bool
  clippedRecommendation : CalibrationRecommendation
  reasons : List Str
  rateLimited : Bool
  boundsViolated : Bool
  cumulativeBudgetExhausted : Bool

/-- `_clip_delta`. -/
def clipDelta (delta cap : ℚ) : ℚ := if delta > cap then cap else if delta < -cap then -cap else delta

def hardFloor : Axis → ℚ
  | .permit => 10 / 100
  | .forbid => 45 / 100
  | .confidence => 45 / 100

def hardCeiling : Axis → ℚ
  | .permit => 55 / 100
  | .forbid => 92 / 100
  | .confidence => 92 / 100

def hardMinAbstainBand : ℚ := 10 / 100

/-- `_clamp`, into the hard bounds. -/
def hardClamp (axis : Axis) (value : ℚ) : ℚ := max (hardFloor axis) (min (hardCeiling axis) value)

def axes : List Axis := [.permit, .forbid, .confidence]

section Evaluate

variable (g : CalibrationSafetyGuard)

def maxDelta : Axis → ℚ
  | .permit => g.maxPermitDelta
  | .forbid => g.maxForbidDelta
  | .confidence => g.maxConfidenceDelta

def pruned (now : ℤ) (history : PolicyMovementHistory) : PolicyMovementHistory :=
  { history with events := history.events.filter fun event => event.instant ≥ now - g.cumulativeWindow }

def rateLimited (now : ℤ) (history : PolicyMovementHistory) : Bool :=
  history.lastCalibratedAt.any fun last => now - last < g.minInterval

def wantedDelta (r : CalibrationRecommendation) (axis : Axis) : ℚ := (recommended r).on axis - (current r).on axis

def clippedDelta (r : CalibrationRecommendation) (axis : Axis) : ℚ :=
  clipDelta (wantedDelta r axis) (maxDelta g axis)

def sumAbs (history : PolicyMovementHistory) (axis : Axis) (delta : ℚ) : ℚ :=
  (history.events.map fun event => |event.moved.on axis|).sum + |delta|

def budgetExhausted (history : PolicyMovementHistory) (r : CalibrationRecommendation) : Bool :=
  axes.any fun axis => sumAbs history axis (clippedDelta g r axis) > g.cumulativeBudget

def clamped (r : CalibrationRecommendation) : Thresholds where
  permit := hardClamp .permit ((current r).permit + clippedDelta g r .permit)
  forbid := hardClamp .forbid ((current r).forbid + clippedDelta g r .forbid)
  confidence := hardClamp .confidence ((current r).confidence + clippedDelta g r .confidence)

def bandTooNarrow (t : Thresholds) : Bool := t.forbid - t.permit < hardMinAbstainBand

def keepBand (t : Thresholds) : Thresholds :=
  if bandTooNarrow t then
    let forbid := min (hardCeiling .forbid) (t.permit + hardMinAbstainBand)
    let permit :=
      if forbid - t.permit < hardMinAbstainBand then max (hardFloor .permit) (forbid - hardMinAbstainBand)
      else t.permit
    { t with permit, forbid }
  else t

/-- The thresholds that `evaluate` comes to, before they are rounded. -/
def settled (r : CalibrationRecommendation) : Thresholds := keepBand (clamped g r)

variable (float : ℚ → NumberText)

def rateReason (policyId : Str) (now : ℤ) (history : PolicyMovementHistory) : List Str :=
  match history.lastCalibratedAt with
  | some last =>
    if now - last < g.minInterval then
      [txt "Policy '" ++ policyId ++ txt "' was calibrated " ++ fixed1 (((now - last : ℤ) : ℚ) / 1000000 / 60) ++
        txt " minutes ago; minimum interval not yet elapsed."]
    else []
  | none => []

def clipName : Axis → Str
  | .permit => txt "Permit-threshold"
  | .forbid => txt "Forbid-threshold"
  | .confidence => txt "Minimum-confidence"

def clipReasons (r : CalibrationRecommendation) : List Str :=
  (axes.filter fun axis => clippedDelta g r axis ≠ wantedDelta r axis).map fun axis =>
    clipName axis ++ txt " delta clipped to ±" ++ (float (maxDelta g axis)).val ++ txt "."

def budgetReason (exhausted : Bool) : List Str :=
  if exhausted then
    [txt "Cumulative threshold movement over the rolling window would exceed the " ++
      (float g.cumulativeBudget).val ++ txt " budget; recommendation rejected."]
  else []

def bandReason (r : CalibrationRecommendation) : List Str :=
  if bandTooNarrow (clamped g r) then
    [txt "Adjusted thresholds to preserve the minimum abstain band of " ++ (float hardMinAbstainBand).val ++ txt "."]
  else []

def clampName : Axis → Str
  | .permit => txt "Permit threshold"
  | .forbid => txt "Forbid threshold"
  | .confidence => txt "Minimum confidence"

def clampedAxes (r : CalibrationRecommendation) : List Axis :=
  axes.filter fun axis => (settled g r).on axis ≠ (current r).on axis + clippedDelta g r axis

def clampReasons (r : CalibrationRecommendation) : List Str :=
  (clampedAxes g r).map fun axis =>
    clampName axis ++ txt " clamped to hard bounds [" ++ (float (hardFloor axis)).val ++ txt ", " ++
      (float (hardCeiling axis)).val ++ txt "]."

def evaluateReasons (policyId : Str) (now : ℤ) (history : PolicyMovementHistory) (r : CalibrationRecommendation) :
    List Str :=
  rateReason g policyId now history ++ clipReasons g float r ++ budgetReason g float (budgetExhausted g history r) ++
    bandReason g float r ++ clampReasons g float r

def clippedTo (r : CalibrationRecommendation) (reasons : List Str) : CalibrationRecommendation :=
  let target := settled g r
  { r with
    recommendedPermitThreshold := roundTo 4 target.permit
    recommendedForbidThreshold := roundTo 4 target.forbid
    recommendedMinimumConfidence := roundTo 4 target.confidence
    permitThresholdDelta := roundTo 4 (target.permit - r.currentPermitThreshold)
    forbidThresholdDelta := roundTo 4 (target.forbid - r.currentForbidThreshold)
    minimumConfidenceDelta := roundTo 4 (target.confidence - r.currentMinimumConfidence)
    reasons := r.reasons ++ reasons }

def decision (policyId : Str) (now : ℤ) (history : PolicyMovementHistory) (r : CalibrationRecommendation) :
    SafetyDecision :=
  let reasons := evaluateReasons g float policyId now history r
  { allowed := !(rateLimited g now history || budgetExhausted g history r)
    clippedRecommendation := clippedTo g r reasons
    reasons
    rateLimited := rateLimited g now history
    boundsViolated := (axes.any fun axis => clippedDelta g r axis ≠ wantedDelta r axis) || !(clampedAxes g r).isEmpty
    cumulativeBudgetExhausted := budgetExhausted g history r }

/-- `evaluate`, which also prunes the history of the policy. -/
def evaluate (now : ℤ) (policyId : Str) (r : CalibrationRecommendation) (histories : Histories) :
    SafetyDecision × Histories :=
  let history := pruned g now (historyOf histories policyId)
  (decision g float policyId now history r, histories.set policyId history)

end Evaluate

def commit (now : ℤ) (policyId : Str) (applied : CalibrationRecommendation) (histories : Histories) : Histories :=
  histories.set policyId
    { events := (historyOf histories policyId).events ++ [⟨now, deltas applied⟩]
      lastCalibratedAt := some now }

end TexGovernance.Learning
