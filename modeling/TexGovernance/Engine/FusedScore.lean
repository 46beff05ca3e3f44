import TexGovernance.Engine.VerdictLadder
import Mathlib.Tactic.FieldSimp
import Mathlib.Tactic.Ring

/-!
# The fused score (`_fuse_scores`, `_effective_weights`)

The seven stream scores and the policy's weights for them. The weights are a
record: a policy's validator has every key present and no other.
-/

namespace TexGovernance.Engine
open PyStr PyDict PyFloat KeepFirst

structure FusionWeights where
  deterministic : ℚ
  specialists : ℚ
  semantic : ℚ
  criticality : ℚ
  agentIdentity : ℚ
  agentCapability : ℚ
  agentBehavioral : ℚ

structure StreamScores where
  deterministic : UnitScore
  specialists : UnitScore
  semantic : UnitScore
  criticality : UnitScore
  agentIdentity : UnitScore
  agentCapability : UnitScore
  agentBehavioral : UnitScore

def deterministicScore (result : DeterministicGateResult) : ℚ :=
  if result.blocked then 1
  else if result.findings.isEmpty then 0
  else min 1 ((result.findings.map fun finding => severityScore finding.severity).foldr max 0)

namespace FusionWeights

def agentMass (weights : FusionWeights) : ℚ :=
  weights.agentIdentity + weights.agentCapability + weights.agentBehavioral

def contentMass (weights : FusionWeights) : ℚ :=
  weights.deterministic + weights.specialists + weights.semantic + weights.criticality

/-- The sum of `fusion_weights.values()`. -/
def total (weights : FusionWeights) : ℚ := weights.contentMass + weights.agentMass

def contentOnly (weights : FusionWeights) : FusionWeights :=
  { weights with agentIdentity := 0, agentCapability := 0, agentBehavioral := 0 }

/-- `_CONTENT_WEIGHT_KEYS`. -/
def contentKeys : List (FusionWeights → ℚ) := [deterministic, specialists, semantic, criticality]

def mapContent (weights : FusionWeights) (f : ℚ → ℚ) : FusionWeights :=
  { weights with
    deterministic := f weights.deterministic
    specialists := f weights.specialists
    semantic := f weights.semantic
    criticality := f weights.criticality }

end FusionWeights

def effectiveWeights (weights : FusionWeights) (agentPresent : Bool) : FusionWeights :=
  if agentPresent then weights
  else if weights.agentMass ≤ 0 then weights.contentOnly
  else if weights.contentMass ≤ 0 then
    (weights.mapContent (· + weights.agentMass / 4)).contentOnly
  else
    (weights.mapContent
      (· * ((weights.contentMass + weights.agentMass) / weights.contentMass))).contentOnly

/-- The sum that `_fuse_scores` clamps. -/
def fusedSum (scores : StreamScores) (weights : FusionWeights) (agentPresent : Bool) : ℚ :=
  let effective := effectiveWeights weights agentPresent
  let fused := scores.deterministic.val * effective.deterministic +
    scores.specialists.val * effective.specialists + scores.semantic.val * effective.semantic +
    scores.criticality.val * effective.criticality
  if agentPresent then
    fused + scores.agentIdentity.val * effective.agentIdentity +
      scores.agentCapability.val * effective.agentCapability +
      scores.agentBehavioral.val * effective.agentBehavioral
  else fused

def fuseScores (scores : StreamScores) (weights : FusionWeights) (agentPresent : Bool) : ℚ :=
  min 1 (max 0 (fusedSum scores weights agentPresent))

structure FusionWeights.Nonneg (weights : FusionWeights) : Prop where
  deterministic : 0 ≤ weights.deterministic
  specialists : 0 ≤ weights.specialists
  semantic : 0 ≤ weights.semantic
  criticality : 0 ≤ weights.criticality
  agentIdentity : 0 ≤ weights.agentIdentity
  agentCapability : 0 ≤ weights.agentCapability
  agentBehavioral : 0 ≤ weights.agentBehavioral

section Effective

variable {weights : FusionWeights}

theorem FusionWeights.Nonneg.agentMass_nonneg (h : weights.Nonneg) : 0 ≤ weights.agentMass :=
  add_nonneg (add_nonneg h.agentIdentity h.agentCapability) h.agentBehavioral

theorem FusionWeights.Nonneg.contentMass_nonneg (h : weights.Nonneg) : 0 ≤ weights.contentMass :=
  add_nonneg (add_nonneg (add_nonneg h.deterministic h.specialists) h.semantic) h.criticality

theorem FusionWeights.Nonneg.contentOnly (h : weights.Nonneg) : weights.contentOnly.Nonneg :=
  ⟨h.deterministic, h.specialists, h.semantic, h.criticality, le_rfl, le_rfl, le_rfl⟩

theorem FusionWeights.Nonneg.mapContent (h : weights.Nonneg) {f : ℚ → ℚ}
    (hf : ∀ w, 0 ≤ w → 0 ≤ f w) : (weights.mapContent f).Nonneg :=
  ⟨hf _ h.deterministic, hf _ h.specialists, hf _ h.semantic, hf _ h.criticality,
    h.agentIdentity, h.agentCapability, h.agentBehavioral⟩

theorem effectiveWeights_nonneg (h : weights.Nonneg) (agentPresent : Bool) :
    (effectiveWeights weights agentPresent).Nonneg := by
  have hagent := h.agentMass_nonneg
  have hcontent := h.contentMass_nonneg
  unfold effectiveWeights
  split
  · exact h
  · split
    · exact h.contentOnly
    · split
      · exact (h.mapContent fun w hw => by positivity).contentOnly
      · exact (h.mapContent fun w hw => by positivity).contentOnly

theorem effectiveWeights_total (h : weights.Nonneg) :
    (effectiveWeights weights false).agentMass = 0 ∧
      (effectiveWeights weights false).contentMass = weights.total := by
  have hagent := h.agentMass_nonneg
  have hcontent := h.contentMass_nonneg
  unfold effectiveWeights
  rw [if_neg Bool.false_ne_true]
  split
  · rename_i hnone
    have hzero : weights.agentMass = 0 := le_antisymm hnone hagent
    refine ⟨by simp [FusionWeights.agentMass, FusionWeights.contentOnly], ?_⟩
    rw [FusionWeights.total, hzero, add_zero]
    rfl
  · split
    · rename_i hnone
      have hzero : weights.contentMass = 0 := le_antisymm hnone hcontent
      refine ⟨by simp [FusionWeights.agentMass, FusionWeights.contentOnly], ?_⟩
      rw [FusionWeights.total]
      simp only [FusionWeights.contentMass, FusionWeights.contentOnly, FusionWeights.mapContent]
      ring
    · rename_i hsome
      have hpos : weights.contentMass ≠ 0 := fun hzero => hsome hzero.le
      refine ⟨by simp [FusionWeights.agentMass, FusionWeights.contentOnly], ?_⟩
      have hsum : ((weights.mapContent (· * ((weights.contentMass + weights.agentMass) /
          weights.contentMass))).contentOnly).contentMass =
            weights.contentMass * ((weights.contentMass + weights.agentMass) / weights.contentMass) := by
        simp only [FusionWeights.contentMass, FusionWeights.contentOnly, FusionWeights.mapContent]
        ring
      rw [hsum, FusionWeights.total]
      field_simp

/-- Any two content weights stand in the same ratio. -/
def SameRatios (weights weights' : FusionWeights) : Prop :=
  ∀ key ∈ FusionWeights.contentKeys, ∀ key' ∈ FusionWeights.contentKeys,
    key weights * key' weights' = key' weights * key weights'

theorem contentKeys_contentOnly :
    ∀ key ∈ FusionWeights.contentKeys, key weights.contentOnly = key weights := by
  simp [FusionWeights.contentKeys, FusionWeights.contentOnly]

theorem contentKeys_mapContent (f : ℚ → ℚ) :
    ∀ key ∈ FusionWeights.contentKeys, key (weights.mapContent f) = f (key weights) := by
  simp [FusionWeights.contentKeys, FusionWeights.mapContent]

theorem contentKeys_zero (h : weights.Nonneg) (hnone : weights.contentMass ≤ 0) :
    ∀ key ∈ FusionWeights.contentKeys, key weights = 0 := by
  have hsum : weights.contentMass = 0 := le_antisymm hnone h.contentMass_nonneg
  obtain ⟨h1, h2, h3, h4, -⟩ := h
  unfold FusionWeights.contentMass at hsum
  intro key hkey
  simp only [FusionWeights.contentKeys, List.mem_cons, List.not_mem_nil, or_false] at hkey
  rcases hkey with rfl | rfl | rfl | rfl
  all_goals linarith

theorem effectiveWeights_ratios (h : weights.Nonneg) :
    SameRatios (effectiveWeights weights false) weights := by
  intro key hkey key' hkey'
  unfold effectiveWeights
  rw [if_neg Bool.false_ne_true]
  split
  · rw [contentKeys_contentOnly key hkey, contentKeys_contentOnly key' hkey', mul_comm]
  · split
    · rename_i hnone
      rw [contentKeys_zero h hnone key hkey, contentKeys_zero h hnone key' hkey', mul_zero, mul_zero]
    · rw [contentKeys_contentOnly key hkey, contentKeys_contentOnly key' hkey',
        contentKeys_mapContent _ key hkey, contentKeys_mapContent _ key' hkey']
      ring

theorem fusedSum_nonneg (h : weights.Nonneg) (scores : StreamScores) (agentPresent : Bool) :
    0 ≤ fusedSum scores weights agentPresent := by
  obtain ⟨h1, h2, h3, h4, h5, h6, h7⟩ := effectiveWeights_nonneg h agentPresent
  have hcontent : 0 ≤ scores.deterministic.val * (effectiveWeights weights agentPresent).deterministic +
      scores.specialists.val * (effectiveWeights weights agentPresent).specialists +
      scores.semantic.val * (effectiveWeights weights agentPresent).semantic +
      scores.criticality.val * (effectiveWeights weights agentPresent).criticality :=
    add_nonneg (add_nonneg (add_nonneg (mul_nonneg scores.deterministic.property.1 h1)
      (mul_nonneg scores.specialists.property.1 h2)) (mul_nonneg scores.semantic.property.1 h3))
      (mul_nonneg scores.criticality.property.1 h4)
  unfold fusedSum
  simp only
  split
  · exact add_nonneg (add_nonneg (add_nonneg hcontent
      (mul_nonneg scores.agentIdentity.property.1 h5))
      (mul_nonneg scores.agentCapability.property.1 h6))
      (mul_nonneg scores.agentBehavioral.property.1 h7)
  · exact hcontent

theorem fusedSum_le_total (h : weights.Nonneg) (scores : StreamScores) :
    fusedSum scores weights false ≤ weights.total := by
  obtain ⟨h1, h2, h3, h4, -⟩ := effectiveWeights_nonneg h false
  have hd := mul_le_of_le_one_left h1 scores.deterministic.property.2
  have hs := mul_le_of_le_one_left h2 scores.specialists.property.2
  have hm := mul_le_of_le_one_left h3 scores.semantic.property.2
  have hc := mul_le_of_le_one_left h4 scores.criticality.property.2
  rw [← (effectiveWeights_total h).2]
  unfold fusedSum FusionWeights.contentMass
  simp only [Bool.false_eq_true, if_false]
  linarith

theorem fuseScores_unclamped (h : weights.Nonneg) (hnormal : weights.total = 1)
    (scores : StreamScores) :
    fuseScores scores weights false = fusedSum scores weights false ∧
      fusedSum scores weights false ∈ Set.Icc (0 : ℚ) 1 := by
  have h0 := fusedSum_nonneg h scores false
  have h1 := fusedSum_le_total h scores
  rw [hnormal] at h1
  refine ⟨?_, h0, h1⟩
  unfold fuseScores
  rw [max_eq_right h0, min_eq_right h1]

end Effective

end TexGovernance.Engine
