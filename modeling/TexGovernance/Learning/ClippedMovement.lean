import TexGovernance.Learning.DriftBound
import Mathlib.Order.Interval.Set.UnorderedInterval

/-!
# What clipping does to a movement

The guard caps a movement, then brings the thresholds into the hard bounds, and then widens the
band.
-/

namespace TexGovernance.Learning
open PyStr PyRepr PyDict PyJson PyFloat CaseFold Domain Stores

structure Reduced (cap wanted moved : ℚ) : Prop where
  capped : |moved| ≤ cap
  smaller : |moved| ≤ |wanted|
  sameWay : 0 ≤ moved * wanted

structure HardBounded (t : Thresholds) : Prop where
  bounds : ∀ axis, hardFloor axis ≤ t.on axis ∧ t.on axis ≤ hardCeiling axis
  band : hardMinAbstainBand ≤ t.forbid - t.permit

/-- The wanted threshold, or the one at the distance of the cap on the way to it. -/
def withinCap (cap start wanted : ℚ) : ℚ := max (start - cap) (min (start + cap) wanted)

theorem add_clipDelta {cap : ℚ} (hcap : 0 < cap) (start wanted : ℚ) :
    start + clipDelta (wanted - start) cap = withinCap cap start wanted := by
  unfold clipDelta withinCap
  split
  · next habove =>
    have hhigh : start + cap ≤ wanted := by linarith
    rw [min_eq_left hhigh, max_eq_right (by linarith)]
  · next habove =>
    rw [min_eq_right (by linarith)]
    split
    · next hbelow =>
      rw [max_eq_left (by linarith), sub_eq_add_neg]
    · next hbelow =>
      rw [max_eq_right (by linarith), add_sub_cancel]

theorem reduced_iff {cap : ℚ} (hcap : 0 < cap) (start wanted stop : ℚ) :
    Reduced cap (wanted - start) (stop - start) ↔ stop ∈ Set.uIcc start (withinCap cap start wanted) := by
  unfold withinCap
  rw [Set.mem_uIcc]
  constructor
  · intro h
    obtain ⟨hlow, hhigh⟩ := abs_le.mp h.capped
    have hsmaller := h.smaller
    obtain hup | hdown := le_total start wanted
    · -- towards a higher threshold
      rw [abs_of_nonneg (sub_nonneg.mpr hup)] at hsmaller
      have hforward : start ≤ stop := by
        by_contra hback
        have hnone : wanted - start = 0 := by
          nlinarith [h.sameWay, abs_nonneg (stop - start)]
        rw [hnone] at hsmaller
        linarith [neg_le_abs (stop - start)]
      left
      exact ⟨hforward, le_max_of_le_right (le_min (by linarith) (by linarith [le_abs_self (stop - start)]))⟩
    · rw [abs_of_nonpos (sub_nonpos.mpr hdown)] at hsmaller
      have hforward : stop ≤ start := by
        by_contra hback
        have hnone : wanted - start = 0 := by
          nlinarith [h.sameWay, abs_nonneg (stop - start)]
        rw [hnone] at hsmaller
        linarith [le_abs_self (stop - start)]
      right
      refine ⟨max_le (by linarith) (min_le_of_right_le ?_), hforward⟩
      linarith [neg_le_abs (stop - start)]
  · intro hbetween
    obtain ⟨hstart, htarget⟩ | ⟨htarget, hstart⟩ := hbetween
    · have hcapped : stop ≤ start + cap := by
        refine htarget.trans (max_le (by linarith) (min_le_left _ _))
      have hwanted : stop = start ∨ stop ≤ wanted := by
        obtain hlow | hwant := le_max_iff.mp htarget
        · left
          linarith
        · right
          exact hwant.trans (min_le_right _ _)
      obtain hsame | hwant := hwanted
      · rw [hsame, sub_self]
        exact ⟨by rw [abs_zero]; exact hcap.le, by rw [abs_zero]; exact abs_nonneg _, by rw [zero_mul]⟩
      · refine ⟨abs_le.mpr ⟨by linarith, by linarith⟩, ?_, mul_nonneg (by linarith) (by linarith)⟩
        rw [abs_of_nonneg (by linarith), abs_of_nonneg (by linarith)]
        linarith
    · have hcapped : start - cap ≤ stop := (le_max_left _ _).trans htarget
      have hwanted : stop = start ∨ wanted ≤ stop := by
        obtain hhigh | hwant := min_le_iff.mp ((le_max_right _ _).trans htarget)
        · left
          linarith
        · right
          exact hwant
      obtain hsame | hwant := hwanted
      · rw [hsame, sub_self]
        exact ⟨by rw [abs_zero]; exact hcap.le, by rw [abs_zero]; exact abs_nonneg _, by rw [zero_mul]⟩
      · refine ⟨abs_le.mpr ⟨by linarith, by linarith⟩, ?_, mul_nonneg_of_nonpos_of_nonpos (by linarith) (by linarith)⟩
        rw [abs_of_nonpos (by linarith), abs_of_nonpos (by linarith)]
        linarith

theorem clamped_mem_uIcc {lo hi : ℚ} (h : lo ≤ hi) (start target : ℚ) :
    max lo (min hi target) ∈ Set.uIcc start target ↔ lo ≤ max start target ∧ min start target ≤ hi := by
  rw [Set.uIcc, Set.mem_Icc]
  constructor
  · intro hmem
    exact ⟨(le_max_left _ _).trans hmem.2, hmem.1.trans (max_le h (min_le_left _ _))⟩
  · intro hmeets
    refine ⟨?_, max_le hmeets.1 ((min_le_right _ _).trans (le_max_right _ _))⟩
    exact le_max_of_le_right (le_min hmeets.2 (min_le_right _ _))

theorem hardFloor_le (axis : Axis) : hardFloor axis ≤ hardCeiling axis := by
  cases axis with
  | _ => norm_num [hardFloor, hardCeiling]

theorem hardClamp_mem (axis : Axis) (value : ℚ) :
    hardFloor axis ≤ hardClamp axis value ∧ hardClamp axis value ≤ hardCeiling axis :=
  ⟨le_max_left _ _, max_le (hardFloor_le axis) (min_le_left _ _)⟩

theorem keepBand_eq {t : Thresholds} (hpermit : t.permit ≤ hardCeiling .permit) :
    keepBand t = { t with forbid := max t.forbid (t.permit + hardMinAbstainBand) } := by
  have hroom : t.permit + hardMinAbstainBand ≤ hardCeiling .forbid := by
    norm_num [hardCeiling, hardMinAbstainBand] at hpermit ⊢
    linarith
  unfold keepBand bandTooNarrow
  by_cases hnarrow : t.forbid - t.permit < hardMinAbstainBand
  · have hkept : ¬ t.permit + hardMinAbstainBand - t.permit < hardMinAbstainBand := by linarith
    rw [if_pos (decide_eq_true hnarrow), min_eq_right hroom]
    simp only
    rw [if_neg hkept, max_eq_right (by linarith)]
  · rw [if_neg (by simpa using hnarrow), max_eq_left (by linarith)]

section Settled

variable (g : CalibrationSafetyGuard) (r : CalibrationRecommendation)

theorem maxDelta_pos (axis : Axis) : 0 < maxDelta g axis := by
  cases axis with
  | permit => exact g.maxPermitDelta_mem.1
  | forbid => exact g.maxForbidDelta_mem.1
  | confidence => exact g.maxConfidenceDelta_mem.1

def target (axis : Axis) : ℚ := withinCap (maxDelta g axis) ((current r).on axis) ((recommended r).on axis)

theorem clamped_on (axis : Axis) : (clamped g r).on axis = hardClamp axis (target g r axis) := by
  have hadd := add_clipDelta (maxDelta_pos g axis) ((current r).on axis) ((recommended r).on axis)
  unfold target
  rw [← hadd]
  cases axis with
  | _ => rfl

theorem settled_eq : settled g r = { clamped g r with
    forbid := max (clamped g r).forbid ((clamped g r).permit + hardMinAbstainBand) } :=
  keepBand_eq (hardClamp_mem .permit _).2

theorem hardBounded_settled : HardBounded (settled g r) := by
  rw [settled_eq]
  have hpermit := hardClamp_mem .permit (target g r .permit)
  have hforbid := hardClamp_mem .forbid (target g r .forbid)
  have hconfidence := hardClamp_mem .confidence (target g r .confidence)
  rw [← clamped_on] at hpermit hforbid hconfidence
  constructor
  · intro axis
    cases axis with
    | permit => exact hpermit
    | confidence => exact hconfidence
    | forbid =>
      refine ⟨hforbid.1.trans (le_max_left _ _), max_le hforbid.2 ?_⟩
      have hceiling := hpermit.2
      norm_num [hardCeiling, hardMinAbstainBand, Thresholds.on] at hceiling ⊢
      linarith
  · have hband := le_max_right (clamped g r).forbid ((clamped g r).permit + hardMinAbstainBand)
    simp only
    linarith

theorem hardBounded_round {t : Thresholds} (h : HardBounded t) :
    HardBounded ⟨roundTo 4 t.permit, roundTo 4 t.forbid, roundTo 4 t.confidence⟩ := by
  -- the bounds have two places, and the band is an even number of steps of the rounding
  have hfixed : ∀ axis, roundTo 4 (hardFloor axis) = hardFloor axis ∧
      roundTo 4 (hardCeiling axis) = hardCeiling axis := by
    intro axis
    cases axis with
    | _ => with_unfolding_all decide
  have hround (axis : Axis) (q : ℚ) (hq : hardFloor axis ≤ q ∧ q ≤ hardCeiling axis) :
      hardFloor axis ≤ roundTo 4 q ∧ roundTo 4 q ≤ hardCeiling axis := by
    rw [← (hfixed axis).1, ← (hfixed axis).2]
    exact ⟨roundTo_mono 4 hq.1, roundTo_mono 4 hq.2⟩
  constructor
  · intro axis
    cases axis with
    | permit => exact hround .permit _ (h.bounds .permit)
    | forbid => exact hround .forbid _ (h.bounds .forbid)
    | confidence => exact hround .confidence _ (h.bounds .confidence)
  · have hapart : t.permit + (2 * (500 : ℤ) : ℤ) / 10 ^ 4 ≤ t.forbid := by
      have hband := h.band
      norm_num [hardMinAbstainBand] at hband ⊢
      linarith
    have hmono := roundTo_mono 4 hapart
    rw [roundTo_add_even] at hmono
    norm_num [hardMinAbstainBand] at hmono ⊢
    linarith

structure MeetsBounds (start : Thresholds) (goal : Axis → ℚ) : Prop where
  bounds : ∀ axis, hardFloor axis ≤ max (start.on axis) (goal axis) ∧
    min (start.on axis) (goal axis) ≤ hardCeiling axis
  band : min (hardCeiling .permit) (goal .permit) + hardMinAbstainBand ≤ max start.forbid (goal .forbid)

theorem settled_forbid_mem_iff : (settled g r).forbid ∈ Set.uIcc (current r).forbid (target g r .forbid) ↔
    (hardFloor .forbid ≤ max (current r).forbid (target g r .forbid) ∧
      min (current r).forbid (target g r .forbid) ≤ hardCeiling .forbid) ∧
    min (hardCeiling .permit) (target g r .permit) + hardMinAbstainBand ≤
      max (current r).forbid (target g r .forbid) := by
  have hpermit : (clamped g r).permit = hardClamp .permit (target g r .permit) := clamped_on g r .permit
  have hforbid : (clamped g r).forbid = hardClamp .forbid (target g r .forbid) := clamped_on g r .forbid
  have hroom : hardClamp .permit (target g r .permit) + hardMinAbstainBand ≤ hardCeiling .forbid := by
    have hceiling := (hardClamp_mem .permit (target g r .permit)).2
    norm_num [hardCeiling, hardMinAbstainBand] at hceiling ⊢
    linarith
  rw [settled_eq, hpermit, hforbid]
  simp only
  rw [hardClamp, max_right_comm, clamped_mem_uIcc (max_le (hardFloor_le .forbid) hroom), max_le_iff]
  constructor
  · intro h
    obtain ⟨⟨hfloor, hband⟩, hceiling⟩ := h
    exact ⟨⟨hfloor, hceiling⟩, (add_le_add_left (le_max_right _ _) _).trans hband⟩
  · intro h
    obtain ⟨⟨hfloor, hceiling⟩, hband⟩ := h
    refine ⟨⟨hfloor, ?_⟩, hceiling⟩
    -- from the floor of the permit threshold the band does not reach the floor of the other
    have hlow : hardFloor .permit + hardMinAbstainBand ≤ hardFloor .forbid := by
      norm_num [hardFloor, hardMinAbstainBand]
    rw [hardClamp, ← max_add_add_right]
    exact max_le (hlow.trans hfloor) hband

theorem settled_mem_iff : (∀ axis, (settled g r).on axis ∈ Set.uIcc ((current r).on axis) (target g r axis)) ↔
    MeetsBounds (current r) (target g r) := by
  have hpermit : (settled g r).permit = hardClamp .permit (target g r .permit) := by
    rw [settled_eq]
    exact clamped_on g r .permit
  have hconfidence : (settled g r).confidence = hardClamp .confidence (target g r .confidence) := by
    rw [settled_eq]
    exact clamped_on g r .confidence
  constructor
  · intro h
    obtain ⟨hbounds, hband⟩ := (settled_forbid_mem_iff g r).mp (h .forbid)
    refine ⟨fun axis => ?_, hband⟩
    have haxis := h axis
    cases axis with
    | forbid => exact hbounds
    | permit =>
      simp only [Thresholds.on] at haxis
      rw [hpermit] at haxis
      exact (clamped_mem_uIcc (hardFloor_le .permit) _ _).mp haxis
    | confidence =>
      simp only [Thresholds.on] at haxis
      rw [hconfidence] at haxis
      exact (clamped_mem_uIcc (hardFloor_le .confidence) _ _).mp haxis
  · intro h axis
    cases axis with
    | forbid => exact (settled_forbid_mem_iff g r).mpr ⟨h.bounds .forbid, h.band⟩
    | permit =>
      simp only [Thresholds.on]
      rw [hpermit]
      exact (clamped_mem_uIcc (hardFloor_le .permit) _ _).mpr (h.bounds .permit)
    | confidence =>
      simp only [Thresholds.on]
      rw [hconfidence]
      exact (clamped_mem_uIcc (hardFloor_le .confidence) _ _).mpr (h.bounds .confidence)

end Settled

/-- The recommendation that `evaluate` returns is within the hard bounds. Before it is rounded,
no threshold moves by more than the cap or than was recommended, or the other way, just when the
policy and the capped recommendation meet the bounds. -/
theorem clipping_only_reduces_iff (g : CalibrationSafetyGuard) (float : ℚ → NumberText) {fold : CaseFolding}
    (policy : PolicySnapshot fold) (r : CalibrationRecommendation) (hcurrent : current r = thresholds policy)
    (now : ℤ) (histories : Histories) :
    let clipped := (evaluate g float now policy.policyId.text r histories).1.clippedRecommendation
    (∀ axis, (recommended clipped).on axis = roundTo 4 ((settled g r).on axis) ∧
      (deltas clipped).on axis = roundTo 4 ((settled g r).on axis - (thresholds policy).on axis)) ∧
    HardBounded (settled g r) ∧ HardBounded (recommended clipped) ∧
    ((∀ axis, Reduced (maxDelta g axis) ((recommended r).on axis - (thresholds policy).on axis)
        ((settled g r).on axis - (thresholds policy).on axis)) ↔
      MeetsBounds (thresholds policy) fun axis =>
        withinCap (maxDelta g axis) ((thresholds policy).on axis) ((recommended r).on axis)) := by
  intro clipped
  rw [← hcurrent]
  refine ⟨fun axis => ⟨recommended_clippedTo g r _ axis, deltas_clippedTo g r _ axis⟩, hardBounded_settled g r,
    hardBounded_round (hardBounded_settled g r), ?_⟩
  have hmoved (axis : Axis) := reduced_iff (maxDelta_pos g axis) ((current r).on axis) ((recommended r).on axis)
    ((settled g r).on axis)
  simp only [hmoved]
  exact settled_mem_iff g r

def tightening : CalibrationRecommendation := buildDefaultCalibrator.recommend basePolicy ⟨50, 10, 0, 0, 0⟩

set_option maxRecDepth 10000 in
/-- A policy in range, and false permits: the movements are capped and nothing is added to them. -/
theorem tightening_reduced : Reduced (maxDelta .default .permit)
    ((recommended tightening).on .permit - (thresholds basePolicy).on .permit)
    ((settled .default tightening).on .permit - (thresholds basePolicy).on .permit) := by
  refine (clipping_only_reduces_iff .default (fun _ => ⟨txt "0.0", by decide⟩) basePolicy tightening
    (buildDefaultCalibrator.current_recommend basePolicy _) 0 .empty).2.2.2.mpr ⟨?_, ?_⟩ .permit
  · intro axis
    cases axis <;> with_unfolding_all decide
  · with_unfolding_all decide

def lowPolicy : PolicySnapshot foldedTexts := { basePolicy with permitThreshold := 5 / 100 }

set_option maxRecDepth 10000 in
/-- A quiet sample asks for no movement, and the guard raises the permit threshold to its floor. -/
theorem low_policy_loosened :
    current (buildDefaultCalibrator.recommend lowPolicy ⟨50, 0, 0, 0, 0⟩) = thresholds lowPolicy ∧
    recommended (buildDefaultCalibrator.recommend lowPolicy ⟨50, 0, 0, 0, 0⟩) = thresholds lowPolicy ∧
    (recommended (evaluate .default (fun _ => ⟨txt "0.0", by decide⟩) 0 lowPolicy.policyId.text
      (buildDefaultCalibrator.recommend lowPolicy ⟨50, 0, 0, 0, 0⟩) .empty).1.clippedRecommendation).permit =
        10 / 100 ∧
    ¬ Reduced (maxDelta .default .permit) 0 (10 / 100 - lowPolicy.permitThreshold) := by
  refine ⟨by with_unfolding_all decide, by with_unfolding_all decide, by with_unfolding_all decide, ?_⟩
  intro h
  have hsmaller := h.smaller
  norm_num [lowPolicy] at hsmaller

end TexGovernance.Learning
