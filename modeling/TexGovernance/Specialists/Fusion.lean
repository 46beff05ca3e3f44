import TexGovernance.Engine.Router
import TexGovernance.Lib.PyJson
import Mathlib.Data.Finset.Card

/-!
# Fusing the specialists (`specialists/fusion.py`)

The bonus that specialists which fire together add to the highest risk: looked up by their
number, raised when a frontier specialist is among them, added to by pairs, and capped.
-/

namespace TexGovernance.Specialists
open PyStr PyFloat PyJson TexGovernance.Engine

structure SpecialistBundle where
  results : List SpecialistResult
  names_nodup : (results.map SpecialistResult.specialistName).Nodup

def frontierSpecialistNames : Finset Str :=
  [txt "argus", txt "attriguard", txt "vigil", txt "agentarmor", txt "mage"].toFinset

def corroborationBonusCap : ℚ := 20 / 100

/-- `_CORROBORATION_BONUS_BY_COUNT.get(n, _CORROBORATION_BONUS_CAP)`, with no
bonus for nobody. -/
def corroborationBonusByCount : ℕ → ℚ
  | 0 => 0
  | 1 => 0
  | 2 => 5 / 100
  | 3 => 10 / 100
  | 4 => 15 / 100
  | 5 => 18 / 100
  | _ => corroborationBonusCap

structure PairBonus where
  first : Str
  second : Str
  bonus : ℚ
  signalName : Str

def pairBonuses : List PairBonus :=
  [⟨txt "mage", txt "agentarmor", 8 / 100, txt "FUSION_MAGE_X_AGENTARMOR_ASI08"⟩,
    ⟨txt "argus", txt "attriguard", 8 / 100, txt "FUSION_ARGUS_X_ATTRIGUARD_CAUSAL"⟩,
    ⟨txt "vigil", txt "clawguard", 6 / 100, txt "FUSION_VIGIL_X_CLAWGUARD_TOOL_HIJACK"⟩,
    ⟨txt "planguard", txt "mage", 6 / 100, txt "FUSION_PLANGUARD_X_MAGE_CROSS_TURN"⟩,
    ⟨txt "agentarmor", txt "attriguard", 7 / 100, txt "FUSION_AGENTARMOR_X_ATTRIGUARD_EXFIL"⟩]

def firingRiskFloor : ℚ := 10 / 100

def fires (result : SpecialistResult) : Bool :=
  firingRiskFloor ≤ result.riskScore.val && !result.matchedPolicyClauseIds.isEmpty

def firingNames (bundle : SpecialistBundle) : List Str :=
  (bundle.results.filter fires).map SpecialistResult.specialistName

def firingSet (bundle : SpecialistBundle) : Finset Str := (firingNames bundle).toFinset

def frontierSet (firing : Finset Str) : Finset Str := firing ∩ frontierSpecialistNames

def soloFrontierBonus : ℚ := 8 / 100

def frontierAgreementMultiplier : ℚ := 15 / 10

def baseBonus (firing : Finset Str) : ℚ :=
  let byCount := corroborationBonusByCount firing.card +
    if firing.card = 1 ∧ frontierSet firing ≠ ∅ then soloFrontierBonus else 0
  if frontierSet firing ≠ ∅ then byCount * frontierAgreementMultiplier else byCount

def firingPairs (firing : Finset Str) : List PairBonus :=
  pairBonuses.filter fun pair => pair.first ∈ firing && pair.second ∈ firing

def corroborationBonus (firing : Finset Str) : ℚ :=
  min (baseBonus firing + ((firingPairs firing).map PairBonus.bonus).sum) corroborationBonusCap

structure FusionVerdict where
  baseRisk : ℚ
  fusedRisk : ℚ
  corroborationBonus : ℚ
  firingSpecialists : List Str
  frontierSpecialistsInAgreement : List Str
  pairSignals : List Str
  cascadingFailureSignal : Bool

def fuse (bundle : SpecialistBundle) : FusionVerdict :=
  let base := maxRiskScore bundle.results
  let firing := (firingNames bundle).mergeSort strLe
  let bonus := corroborationBonus (firingSet bundle)
  { baseRisk := roundTo 4 base
    fusedRisk := roundTo 4 (min 1 (base + bonus))
    corroborationBonus := roundTo 4 bonus
    firingSpecialists := firing
    frontierSpecialistsInAgreement := firing.filter (· ∈ frontierSpecialistNames)
    pairSignals := (firingPairs (firingSet bundle)).map PairBonus.signalName
    cascadingFailureSignal := 3 ≤ (firingSet bundle).card && frontierSet (firingSet bundle) ≠ ∅ }

theorem byCount_mono {n m : ℕ} (h : n ≤ m) :
    corroborationBonusByCount n ≤ corroborationBonusByCount m := by
  have hstep : ∀ n, corroborationBonusByCount n ≤ corroborationBonusByCount (n + 1) := by
    intro n
    rcases n with _ | _ | _ | _ | _ | _ | n
    case succ.succ.succ.succ.succ.succ => exact le_rfl
    all_goals norm_num [corroborationBonusByCount, corroborationBonusCap]
  exact monotone_nat_of_le_succ hstep h

theorem byCount_nonneg (n : ℕ) : 0 ≤ corroborationBonusByCount n := byCount_mono (Nat.zero_le n)

def pairSum (firing : Finset Str) : ℚ := ((firingPairs firing).map PairBonus.bonus).sum

theorem pairBonuses_spec : ∀ pair ∈ pairBonuses, 6 / 100 ≤ pair.bonus ∧ pair.first ≠ pair.second ∧
    (pair.first ∈ frontierSpecialistNames ∨ pair.second ∈ frontierSpecialistNames) := by
  with_unfolding_all decide

theorem pairSum_nonneg (firing : Finset Str) : 0 ≤ pairSum firing := by
  apply List.sum_nonneg
  intro bonus hbonus
  obtain ⟨pair, hpair, rfl⟩ := List.mem_map.mp hbonus
  have hmin := (pairBonuses_spec pair (List.mem_of_mem_filter hpair)).1
  linarith

section Firing

variable {firing firing' : Finset Str}

theorem pairSum_mono (h : firing ⊆ firing') : pairSum firing ≤ pairSum firing' := by
  unfold pairSum firingPairs
  have hspec : ∀ pair ∈ pairBonuses, 0 ≤ pair.bonus := by
    intro pair hpair
    have hmin := (pairBonuses_spec pair hpair).1
    linarith
  generalize pairBonuses = pairs at hspec ⊢
  induction pairs with
  | nil => exact le_rfl
  | cons pair pairs ih =>
    have htail := ih fun p hp => hspec p (List.mem_cons_of_mem _ hp)
    have hmin := hspec pair (List.mem_cons_self ..)
    rw [List.filter_cons, List.filter_cons]
    split
    · rename_i hboth
      simp only [Bool.and_eq_true, decide_eq_true_eq] at hboth
      rw [if_pos (by simp [h hboth.1, h hboth.2])]
      simp only [List.map_cons, List.sum_cons]
      linarith
    · split
      · simp only [List.map_cons, List.sum_cons]
        linarith
      · exact htail

theorem firingPairs_spec (h : firingPairs firing ≠ []) :
    2 ≤ firing.card ∧ frontierSet firing ≠ ∅ ∧ 6 / 100 ≤ pairSum firing := by
  obtain ⟨pair, hpair⟩ := List.exists_mem_of_ne_nil _ h
  have hlisted := List.mem_of_mem_filter hpair
  obtain ⟨hmin, hne, hfrontier⟩ := pairBonuses_spec pair hlisted
  have hboth := List.of_mem_filter hpair
  simp only [Bool.and_eq_true, decide_eq_true_eq] at hboth
  refine ⟨?_, ?_, ?_⟩
  · exact Finset.one_lt_card.mpr ⟨_, hboth.1, _, hboth.2, hne⟩
  · apply Finset.Nonempty.ne_empty
    rcases hfrontier with hfrontier | hfrontier
    · exact ⟨_, Finset.mem_inter.mpr ⟨hboth.1, hfrontier⟩⟩
    · exact ⟨_, Finset.mem_inter.mpr ⟨hboth.2, hfrontier⟩⟩
  · refine hmin.trans (List.single_le_sum ?_ _ (List.mem_map_of_mem hpair))
    intro bonus hbonus
    obtain ⟨other, hother, rfl⟩ := List.mem_map.mp hbonus
    have hother := (pairBonuses_spec other (List.mem_of_mem_filter hother)).1
    linarith

theorem pairSum_eq_zero (h : firingPairs firing = []) : pairSum firing = 0 := by
  rw [pairSum, h]
  rfl

theorem frontierSet_mono (h : firing ⊆ firing') (hne : frontierSet firing ≠ ∅) :
    frontierSet firing' ≠ ∅ := by
  obtain ⟨name, hname⟩ := Finset.nonempty_iff_ne_empty.mpr hne
  obtain ⟨hfires, hfrontier⟩ := Finset.mem_inter.mp hname
  exact Finset.ne_empty_of_mem (Finset.mem_inter.mpr ⟨h hfires, hfrontier⟩)

theorem baseBonus_nonneg (firing : Finset Str) : 0 ≤ baseBonus firing := by
  have hcount := byCount_nonneg firing.card
  unfold baseBonus
  simp only
  have hsum : 0 ≤ corroborationBonusByCount firing.card +
      if firing.card = 1 ∧ frontierSet firing ≠ ∅ then soloFrontierBonus else 0 := by
    refine add_nonneg hcount ?_
    split
    · norm_num [soloFrontierBonus]
    · exact le_rfl
  split
  · exact mul_nonneg hsum (by norm_num [frontierAgreementMultiplier])
  · exact hsum

theorem corroborationBonus_nonneg (firing : Finset Str) : 0 ≤ corroborationBonus firing :=
  le_min (add_nonneg (baseBonus_nonneg firing) (pairSum_nonneg firing))
    (by norm_num [corroborationBonusCap])

theorem baseBonus_frontier (hne : frontierSet firing ≠ ∅) (hcard : firing.card ≠ 1) :
    baseBonus firing = corroborationBonusByCount firing.card * frontierAgreementMultiplier := by
  unfold baseBonus
  simp [hne, hcard]

theorem baseBonus_solo (hne : frontierSet firing ≠ ∅) (hcard : firing.card = 1) :
    baseBonus firing = 12 / 100 := by
  unfold baseBonus
  simp only [hcard, hne, and_self, if_true, ne_eq, not_false_eq_true]
  norm_num [corroborationBonusByCount, soloFrontierBonus, frontierAgreementMultiplier]

theorem baseBonus_plain (hnone : frontierSet firing = ∅) :
    baseBonus firing = corroborationBonusByCount firing.card := by
  unfold baseBonus
  simp [hnone]

/-- A single frontier specialist fires, and then another one joins with which
it is no listed pair. -/
def LosesSoloBonus (firing firing' : Finset Str) : Prop :=
  firing.card = 1 ∧ frontierSet firing ≠ ∅ ∧ firing'.card = 2 ∧ firingPairs firing' = []

instance : Decidable (LosesSoloBonus firing firing') := inferInstanceAs (Decidable (_ ∧ _))

theorem LosesSoloBonus.bonuses (hsub : firing ⊆ firing') (h : LosesSoloBonus firing firing') :
    corroborationBonus firing = 12 / 100 ∧ corroborationBonus firing' = 75 / 1000 := by
  obtain ⟨hone, hne, htwo, hnone⟩ := h
  have hfirst : firingPairs firing = [] := by
    by_contra hpairs
    have hcard := (firingPairs_spec hpairs).1
    omega
  constructor
  · unfold corroborationBonus
    rw [baseBonus_solo hne hone, hfirst]
    norm_num [corroborationBonusCap]
  · unfold corroborationBonus
    rw [baseBonus_frontier (frontierSet_mono hsub hne) (by omega), htwo, hnone]
    norm_num [corroborationBonusByCount, frontierAgreementMultiplier, corroborationBonusCap]

theorem baseBonus_three_le (hne : frontierSet firing ≠ ∅) (hcard : 3 ≤ firing.card) :
    15 / 100 ≤ baseBonus firing := by
  rw [baseBonus_frontier hne (by omega)]
  have hcount := byCount_mono hcard
  norm_num [corroborationBonusByCount, frontierAgreementMultiplier] at hcount ⊢
  linarith

theorem bonus_sum_mono (hsub : firing ⊆ firing') (hkeeps : ¬ LosesSoloBonus firing firing') :
    baseBonus firing + pairSum firing ≤ baseBonus firing' + pairSum firing' := by
  have hpairs := pairSum_mono hsub
  have hcard := Finset.card_le_card hsub
  have hcount := byCount_mono hcard
  rcases eq_or_lt_of_le hcard with heq | hlt
  · rw [Finset.eq_of_subset_of_card_le hsub heq.ge]
  · by_cases hne : frontierSet firing = ∅
    · -- no frontier specialist: only the count speaks
      rw [baseBonus_plain hne]
      by_cases hne' : frontierSet firing' = ∅
      · rw [baseBonus_plain hne']
        linarith
      · by_cases hone : firing'.card = 1
        · have hnobody : firing.card = 0 := by omega
          rw [hnobody, corroborationBonusByCount]
          have hbase := baseBonus_nonneg firing'
          linarith
        · rw [baseBonus_frontier hne' hone]
          have hnonneg := byCount_nonneg firing'.card
          norm_num [frontierAgreementMultiplier]
          linarith
    · have hne' := frontierSet_mono hsub hne
      have hsome : firing.card ≠ 0 := by
        intro hzero
        rw [Finset.card_eq_zero] at hzero
        rw [hzero] at hne
        exact hne rfl
      by_cases hone : firing.card = 1
      · -- the solo bonus, against a pair or against three
        have hfirst : firingPairs firing = [] := by
          by_contra hpairs'
          have hcard' := (firingPairs_spec hpairs').1
          omega
        rw [baseBonus_solo hne hone, pairSum_eq_zero hfirst]
        have hpairs' := pairSum_nonneg firing'
        by_cases htwo : firing'.card = 2
        · have hpair : firingPairs firing' ≠ [] := fun hnone => hkeeps ⟨hone, hne, htwo, hnone⟩
          have hmin := (firingPairs_spec hpair).2.2
          rw [baseBonus_frontier hne' (by omega), htwo]
          norm_num [corroborationBonusByCount, frontierAgreementMultiplier]
          linarith
        · have hthree := baseBonus_three_le hne' (by omega)
          linarith
      · rw [baseBonus_frontier hne hone, baseBonus_frontier hne' (by omega)]
        norm_num [frontierAgreementMultiplier]
        linarith

theorem corroborationBonus_mono (hsub : firing ⊆ firing') (hkeeps : ¬ LosesSoloBonus firing firing') :
    corroborationBonus firing ≤ corroborationBonus firing' := by
  exact min_le_min (bonus_sum_mono hsub hkeeps) le_rfl

end Firing

def Extends (first second : SpecialistBundle) : Prop :=
  ∀ result ∈ first.results, ∃ result' ∈ second.results,
    result'.specialistName = result.specialistName ∧
    result.riskScore.val ≤ result'.riskScore.val ∧
    result.matchedPolicyClauseIds ⊆ result'.matchedPolicyClauseIds

theorem le_maxRiskScore {results : List SpecialistResult} {result : SpecialistResult}
    (h : result ∈ results) : result.riskScore.val ≤ maxRiskScore results := by
  unfold maxRiskScore
  induction results with
  | nil => cases h
  | cons head results ih =>
    rcases List.mem_cons.mp h with rfl | h
    · exact le_max_left _ _
    · exact (ih h).trans (le_max_right _ _)

theorem maxRiskScore_le {results : List SpecialistResult} {bound : ℚ} (h0 : 0 ≤ bound)
    (h : ∀ result ∈ results, result.riskScore.val ≤ bound) : maxRiskScore results ≤ bound := by
  unfold maxRiskScore
  induction results with
  | nil => exact h0
  | cons head results ih =>
    exact max_le (h head (List.mem_cons_self ..)) (ih fun r hr => h r (List.mem_cons_of_mem _ hr))

theorem maxRiskScore_nonneg (results : List SpecialistResult) : 0 ≤ maxRiskScore results := by
  unfold maxRiskScore
  induction results with
  | nil => exact le_rfl
  | cons head results ih => exact ih.trans (le_max_right _ _)

theorem maxRiskScore_le_one (results : List SpecialistResult) : maxRiskScore results ≤ 1 :=
  maxRiskScore_le zero_le_one fun result _ => result.riskScore.property.2

theorem fires_extends {result result' : SpecialistResult}
    (hrisk : result.riskScore.val ≤ result'.riskScore.val)
    (hclauses : result.matchedPolicyClauseIds ⊆ result'.matchedPolicyClauseIds)
    (h : fires result = true) : fires result' = true := by
  unfold fires at h ⊢
  simp only [Bool.and_eq_true, decide_eq_true_eq, Bool.not_eq_true', List.isEmpty_eq_false_iff] at h ⊢
  refine ⟨h.1.trans hrisk, ?_⟩
  obtain ⟨clause, hclause⟩ := List.exists_mem_of_ne_nil _ h.2
  exact List.ne_nil_of_mem (hclauses hclause)

section Bundles

variable {first second : SpecialistBundle}

theorem Extends.maxRiskScore_le (h : Extends first second) :
    maxRiskScore first.results ≤ maxRiskScore second.results := by
  refine Specialists.maxRiskScore_le (maxRiskScore_nonneg _) fun result hresult => ?_
  obtain ⟨result', hresult', -, hrisk, -⟩ := h result hresult
  exact hrisk.trans (le_maxRiskScore hresult')

theorem Extends.firingSet_subset (h : Extends first second) : firingSet first ⊆ firingSet second := by
  intro name hname
  unfold firingSet firingNames at hname ⊢
  simp only [List.mem_toFinset, List.mem_map, List.mem_filter] at hname ⊢
  obtain ⟨result, ⟨hresult, hfires⟩, rfl⟩ := hname
  obtain ⟨result', hresult', hnamed, hrisk, hclauses⟩ := h result hresult
  exact ⟨result', ⟨hresult', fires_extends hrisk hclauses hfires⟩, hnamed⟩

theorem le_fusedRisk (bundle : SpecialistBundle) :
    roundTo 4 (maxRiskScore bundle.results) ≤ (fuse bundle).fusedRisk := by
  refine roundTo_mono 4 (le_min (maxRiskScore_le_one _) ?_)
  have hbonus := corroborationBonus_nonneg (firingSet bundle)
  linarith

theorem roundTo_one : roundTo 4 1 = 1 := by
  norm_num [roundTo, roundHalfEven]

theorem fusedRisk_of_bonus {bundle : SpecialistBundle} {k : ℤ}
    (h : corroborationBonus (firingSet bundle) = (2 * k : ℤ) / 10 ^ 4) :
    (fuse bundle).fusedRisk =
      min 1 (roundTo 4 (maxRiskScore bundle.results) + (2 * k : ℤ) / 10 ^ 4) := by
  unfold fuse
  simp only
  rw [roundTo_min, roundTo_one, h, roundTo_add_even]

def MakesUp (first second : SpecialistBundle) : Prop :=
  925 / 1000 ≤ roundTo 4 (maxRiskScore second.results) ∨
    roundTo 4 (maxRiskScore first.results) + 45 / 1000 ≤ roundTo 4 (maxRiskScore second.results)

instance : Decidable (MakesUp first second) := inferInstanceAs (Decidable (_ ∨ _))

theorem LosesSoloBonus.fusedRisk_le_iff (h : Extends first second)
    (hloses : LosesSoloBonus (firingSet first) (firingSet second)) :
    (fuse first).fusedRisk ≤ (fuse second).fusedRisk ↔ MakesUp first second := by
  obtain ⟨hfirst, hsecond⟩ := hloses.bonuses h.firingSet_subset
  have hleft := @fusedRisk_of_bonus first 600 (by rw [hfirst]; norm_num)
  have hright := @fusedRisk_of_bonus second 375 (by rw [hsecond]; norm_num)
  push_cast at hleft hright
  rw [hleft, hright]
  simp only [le_min_iff, min_le_iff, le_refl, true_or, true_and]
  unfold MakesUp
  constructor
  · intro hle
    rcases hle with hone | hsum
    · exact .inl (by linarith)
    · exact .inr (by linarith)
  · intro hmakes
    rcases hmakes with hone | hsum
    · exact .inl (by linarith)
    · exact .inr (by linarith)

theorem fusedRisk_mono (h : Extends first second)
    (hkeeps : ¬ LosesSoloBonus (firingSet first) (firingSet second)) :
    (fuse first).fusedRisk ≤ (fuse second).fusedRisk := by
  have hrisk := h.maxRiskScore_le
  have hbonus := corroborationBonus_mono h.firingSet_subset hkeeps
  exact roundTo_mono 4 (min_le_min le_rfl (add_le_add hrisk hbonus))

/-- More evidence does not lower the fused risk, and the highest risk is below
it, exactly when no solo bonus is lost that the highest risk does not make up
for. -/
theorem corroboration_never_lowers_iff (h : Extends first second) :
    ((fuse first).fusedRisk ≤ (fuse second).fusedRisk ∧
      roundTo 4 (maxRiskScore first.results) ≤ (fuse first).fusedRisk ∧
      roundTo 4 (maxRiskScore second.results) ≤ (fuse second).fusedRisk) ↔
      ¬ LosesSoloBonus (firingSet first) (firingSet second) ∨ MakesUp first second := by
  constructor
  · intro ⟨hle, _, _⟩
    by_cases hloses : LosesSoloBonus (firingSet first) (firingSet second)
    · exact .inr ((hloses.fusedRisk_le_iff h).mp hle)
    · exact .inl hloses
  · intro hcases
    refine ⟨?_, le_fusedRisk first, le_fusedRisk second⟩
    by_cases hloses : LosesSoloBonus (firingSet first) (firingSet second)
    · rcases hcases with hkeeps | hmakes
      · exact absurd hloses hkeeps
      · exact (hloses.fusedRisk_le_iff h).mpr hmakes
    · exact fusedRisk_mono h hloses

end Bundles

def sampleResult (specialistName : Str) : SpecialistResult where
  specialistName := specialistName
  riskScore := ⟨1 / 2, by norm_num⟩
  matchedPolicyClauseIds := [txt "provenance"]
  uncertaintyFlags := default

def sampleBundle (others : List Str) (h : (txt "argus" :: others).Nodup) : SpecialistBundle where
  results := (txt "argus" :: others).map sampleResult
  names_nodup := by
    rw [List.map_map]
    have hnames : SpecialistResult.specialistName ∘ sampleResult = id := rfl
    rw [hnames, List.map_id]
    exact h

theorem sampleBundle_extends {others : List Str} {h : (txt "argus" :: others).Nodup} :
    Extends (sampleBundle [] (List.nodup_singleton _)) (sampleBundle others h) := by
  intro result hresult
  refine ⟨result, ?_, rfl, le_rfl, List.Subset.refl _⟩
  obtain rfl := List.mem_singleton.mp hresult
  exact List.mem_cons_self ..

theorem corroboration_of_pair :
    (fuse (sampleBundle [] (by decide +kernel))).fusedRisk ≤
      (fuse (sampleBundle [txt "attriguard"] (by decide +kernel))).fusedRisk :=
  ((corroboration_never_lowers_iff sampleBundle_extends).mpr (by with_unfolding_all decide)).1

/-- The planner's guard fires as well, and the fused risk falls. -/
theorem corroboration_lowers :
    Extends (sampleBundle [] (by decide +kernel)) (sampleBundle [txt "planguard"] (by decide +kernel)) ∧
    (fuse (sampleBundle [] (by decide +kernel))).fusedRisk = 62 / 100 ∧
    (fuse (sampleBundle [txt "planguard"] (by decide +kernel))).fusedRisk = 575 / 1000 :=
  ⟨sampleBundle_extends, by with_unfolding_all decide, by with_unfolding_all decide⟩

end TexGovernance.Specialists
