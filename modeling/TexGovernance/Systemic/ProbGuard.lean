import TexGovernance.Lib.MarkovChain
import TexGovernance.Lib.PyJson
import Mathlib.Algebra.BigOperators.Field
import Mathlib.Tactic.Ring

/-!
# Bounded reachability (`systemic/probguard.py`)

The chain over the twenty-seven abstraction ids, learned from observed
transitions. The matrix is cached until the next observation.
-/

namespace TexGovernance.Systemic
open PyStr PyJson

def agentCountBands : List Str := [txt "agent_none", txt "agent_few", txt "agent_many"]

def capabilityPressureBands : List Str := [txt "cap_low", txt "cap_med", txt "cap_high"]

def compromiseBands : List Str := [txt "compromise_low", txt "compromise_med", txt "compromise_high"]

def allStates : List Str :=
  sortedNames (agentCountBands.flatMap fun a => capabilityPressureBands.flatMap fun c =>
    compromiseBands.map fun m => a ++ txt ":" ++ c ++ txt ":" ++ m)

abbrev Abstraction := Fin allStates.length

def stateIndex (s : Str) : Option Abstraction :=
  (List.finRange allStates.length).find? fun i => allStates.get i = s

def unsafeStates : List Str := allStates.filter fun s => (txt "compromise_high").isSuffixOf s

def isUnsafe (i : Abstraction) : Bool := allStates.get i ∈ unsafeStates

abbrev TransitionMatrix := Abstraction → Abstraction → ℚ

structure DTMCModel where
  smoothingAlpha : ℚ
  selfLoopPrior : ℚ
  counts : Abstraction → Abstraction → ℚ
  dirty : Bool
  cachedMatrix : Option TransitionMatrix

def DTMCModel.new (smoothingAlpha selfLoopPrior : ℚ) : DTMCModel :=
  ⟨smoothingAlpha, selfLoopPrior, fun _ _ => 0, true, none⟩

def DTMCModel.observeTransition (model : DTMCModel) (fromState toState : Str) : DTMCModel :=
  match stateIndex fromState, stateIndex toState with
  | some i, some j =>
    { model with
      counts := Function.update model.counts i
        (Function.update (model.counts i) j (model.counts i j + 1))
      dirty := true }
  | _, _ => model

def smoothed (smoothingAlpha selfLoopPrior : ℚ) (counts : Abstraction → Abstraction → ℚ) :
    TransitionMatrix := fun i j =>
  let rowTotal := ((List.finRange allStates.length).map (counts i)).sum +
    smoothingAlpha * allStates.length + selfLoopPrior
  let cell := counts i j + smoothingAlpha
  (if i = j then cell + selfLoopPrior else cell) / rowTotal

/-- The property `transition_matrix`, which fills the cache. -/
def DTMCModel.transitionMatrix (model : DTMCModel) : TransitionMatrix × DTMCModel :=
  match model.dirty, model.cachedMatrix with
  | false, some matrix => (matrix, model)
  | _, _ =>
    let matrix := smoothed model.smoothingAlpha model.selfLoopPrior model.counts
    (matrix, { model with cachedMatrix := some matrix, dirty := false })

def absorbingMatrix (matrix : TransitionMatrix) : TransitionMatrix := fun i j =>
  if isUnsafe i then if j = i then 1 else 0 else matrix i j

def propagateOnce (matrix : TransitionMatrix) (pi : Abstraction → ℚ) : Abstraction → ℚ :=
  (List.finRange allStates.length).foldl
    (fun newPi i => if pi i = 0 then newPi else fun j => newPi j + pi i * matrix i j) fun _ => 0

def reachabilityProbability (model : DTMCModel) (initialState : Str) (horizonK : ℤ) :
    Except PyErr ℚ × DTMCModel :=
  if horizonK < 1 then (.error .valueError, model)
  else match stateIndex initialState with
    | none => (.ok 0, model)
    | some initial =>
      let (matrix, model) := model.transitionMatrix
      let pi := (propagateOnce (absorbingMatrix matrix))^[horizonK.toNat]
        fun j => if j = initial then 1 else 0
      (.ok (((List.finRange allStates.length).filter isUnsafe).map pi).sum, model)

inductive Call where
  | observe (fromState toState : Str)
  | matrix
  | reachability (initialState : Str) (horizonK : ℤ)
  deriving DecidableEq

def DTMCModel.apply (model : DTMCModel) : Call → DTMCModel
  | .observe fromState toState => model.observeTransition fromState toState
  | .matrix => model.transitionMatrix.2
  | .reachability initialState horizonK => (reachabilityProbability model initialState horizonK).2

def DTMCModel.after (model : DTMCModel) (calls : List Call) : DTMCModel := calls.foldl DTMCModel.apply model

theorem allStates_nodup : allStates.Nodup := by
  decide

theorem stateIndex_eq_some {s : Str} {i : Abstraction} : stateIndex s = some i ↔ allStates.get i = s := by
  unfold stateIndex
  constructor
  · intro h
    simpa using List.find?_some h
  · rintro rfl
    have hsame : ∀ j, allStates.get j = allStates.get i → j = i :=
      fun j h => (List.nodup_iff_injective_get.mp allStates_nodup) h
    cases hfound : (List.finRange allStates.length).find? fun j => allStates.get j = allStates.get i with
    | none => exact absurd (decide_eq_true rfl) (List.find?_eq_none.mp hfound i (List.mem_finRange i))
    | some j => rw [hsame j (by simpa using List.find?_some hfound)]

/-- How often a transition was observed. -/
def observed (calls : List Call) (i j : Abstraction) : ℚ :=
  calls.count (.observe (allStates.get i) (allStates.get j))

structure Learned (smoothingAlpha selfLoopPrior : ℚ) (calls : List Call) (model : DTMCModel) : Prop where
  alpha : model.smoothingAlpha = smoothingAlpha
  prior : model.selfLoopPrior = selfLoopPrior
  counts : model.counts = observed calls
  clean : model.dirty = false → ∀ matrix, model.cachedMatrix = some matrix →
    matrix = smoothed smoothingAlpha selfLoopPrior (observed calls)

variable {smoothingAlpha selfLoopPrior : ℚ} {calls : List Call} {model : DTMCModel}

theorem Learned.matrix (h : Learned smoothingAlpha selfLoopPrior calls model) :
    model.transitionMatrix.1 = smoothed smoothingAlpha selfLoopPrior (observed calls) ∧
      Learned smoothingAlpha selfLoopPrior calls model.transitionMatrix.2 := by
  have hfresh : smoothed model.smoothingAlpha model.selfLoopPrior model.counts =
      smoothed smoothingAlpha selfLoopPrior (observed calls) := by
    rw [h.alpha, h.prior, h.counts]
  unfold DTMCModel.transitionMatrix
  split
  · rename_i matrix hdirty hcached
    exact ⟨h.clean hdirty matrix hcached, h⟩
  · exact ⟨hfresh, h.alpha, h.prior, h.counts,
      fun _ matrix hcached => (Option.some.inj hcached).symm.trans hfresh⟩

theorem observed_append (c : Call) (i j : Abstraction) :
    observed (calls ++ [c]) i j = observed calls i j +
      if c = .observe (allStates.get i) (allStates.get j) then 1 else 0 := by
  unfold observed
  rw [List.count_append, List.count_singleton]
  split <;> rename_i h <;> simp_all

theorem Learned.of_other (h : Learned smoothingAlpha selfLoopPrior calls model) {c : Call}
    (hc : ∀ i j, c ≠ .observe (allStates.get i) (allStates.get j)) :
    Learned smoothingAlpha selfLoopPrior (calls ++ [c]) model := by
  have hsame : observed (calls ++ [c]) = observed calls := by
    funext i j
    rw [observed_append, if_neg (hc i j), add_zero]
  exact ⟨h.alpha, h.prior, hsame ▸ h.counts, hsame ▸ h.clean⟩

theorem Learned.apply (h : Learned smoothingAlpha selfLoopPrior calls model) (c : Call) :
    Learned smoothingAlpha selfLoopPrior (calls ++ [c]) (model.apply c) := by
  cases c with
  | observe fromState toState =>
    change Learned smoothingAlpha selfLoopPrior _ (model.observeTransition fromState toState)
    unfold DTMCModel.observeTransition
    split
    · rename_i i j hi hj
      obtain rfl := stateIndex_eq_some.mp hi
      obtain rfl := stateIndex_eq_some.mp hj
      refine ⟨h.alpha, h.prior, ?_, fun hdirty => nomatch hdirty⟩
      funext i' j'
      have hinj := List.nodup_iff_injective_get.mp allStates_nodup
      rw [observed_append, ← h.counts]
      simp only [Call.observe.injEq, hinj.eq_iff]
      by_cases hrow : i = i'
      · subst hrow
        by_cases hcell : j = j'
        · subst hcell
          simp
        · rw [Function.update_self, Function.update_of_ne (Ne.symm hcell), if_neg (fun h => hcell h.2), add_zero]
      · rw [Function.update_of_ne (Ne.symm hrow), if_neg (fun h => hrow h.1), add_zero]
    · -- an id outside the table is dropped
      rename_i hnone
      refine h.of_other fun i j hc => ?_
      obtain ⟨rfl, rfl⟩ := Call.observe.inj hc
      exact hnone i j (stateIndex_eq_some.mpr rfl) (stateIndex_eq_some.mpr rfl)
  | matrix => exact h.matrix.2.of_other fun _ _ => nofun
  | reachability initialState horizonK =>
    have hother : ∀ i j, Call.reachability initialState horizonK ≠ .observe (allStates.get i) (allStates.get j) :=
      fun _ _ => nofun
    change Learned smoothingAlpha selfLoopPrior _ (reachabilityProbability model initialState horizonK).2
    unfold reachabilityProbability
    split
    · exact h.of_other hother
    · split
      · exact h.of_other hother
      · exact h.matrix.2.of_other hother

theorem learned_after (smoothingAlpha selfLoopPrior : ℚ) (calls : List Call) :
    Learned smoothingAlpha selfLoopPrior calls ((DTMCModel.new smoothingAlpha selfLoopPrior).after calls) := by
  induction calls using List.reverseRecOn with
  | nil => exact ⟨rfl, rfl, rfl, fun hdirty => nomatch hdirty⟩
  | append_singleton calls c ih =>
    unfold DTMCModel.after at ih ⊢
    rw [List.foldl_append]
    exact ih.apply c

theorem rowTotal_eq (f : Abstraction → ℚ) : ((List.finRange allStates.length).map f).sum = ∑ i, f i :=
  (Fin.sum_univ_def f).symm

theorem smoothed_stochastic {counts : Abstraction → Abstraction → ℚ} (halpha : 0 < smoothingAlpha)
    (hprior : 0 ≤ selfLoopPrior) (hcounts : ∀ i j, 0 ≤ counts i j) :
    MarkovChain.RowStochastic (smoothed smoothingAlpha selfLoopPrior counts) := by
  have htotal : ∀ i, 0 < (∑ j, counts i j) + smoothingAlpha * allStates.length + selfLoopPrior := by
    intro i
    have hsize : (0 : ℚ) < allStates.length := by exact_mod_cast i.pos
    have hsum : 0 ≤ ∑ j, counts i j := Finset.sum_nonneg fun j _ => hcounts i j
    have hfloor := mul_pos halpha hsize
    linarith
  constructor
  · intro i j
    unfold smoothed
    simp only [rowTotal_eq]
    refine div_nonneg ?_ (htotal i).le
    have hcell := hcounts i j
    split <;> linarith
  · intro i
    unfold smoothed
    simp only [rowTotal_eq]
    rw [← Finset.sum_div, div_eq_one_iff_eq (htotal i).ne']
    have hcell : ∀ j, (if i = j then counts i j + smoothingAlpha + selfLoopPrior
        else counts i j + smoothingAlpha) =
        counts i j + smoothingAlpha + if i = j then selfLoopPrior else 0 := by
      intro j
      split <;> ring
    simp only [hcell, Finset.sum_add_distrib, Finset.sum_ite_eq, Finset.mem_univ, if_true,
      Finset.sum_const, Finset.card_univ, Fintype.card_fin, nsmul_eq_mul]
    ring

theorem propagateOnce_eq (matrix : TransitionMatrix) (pi : Abstraction → ℚ) :
    propagateOnce matrix pi = MarkovChain.propagate matrix pi := by
  have hfold : ∀ (is : List Abstraction) (newPi : Abstraction → ℚ) (j : Abstraction),
      is.foldl (fun newPi i => if pi i = 0 then newPi else fun j => newPi j + pi i * matrix i j) newPi j =
        newPi j + (is.map fun i => pi i * matrix i j).sum := by
    intro is
    induction is with
    | nil => exact fun newPi j => (add_zero _).symm
    | cons i is ih =>
      intro newPi j
      rw [List.foldl_cons, ih, List.map_cons, List.sum_cons]
      split
      · rename_i hzero
        rw [hzero, zero_mul, zero_add]
      · exact add_assoc ..
  funext j
  unfold propagateOnce MarkovChain.propagate
  rw [hfold, rowTotal_eq, zero_add]

theorem unsafeMass_eq (pi : Abstraction → ℚ) :
    (((List.finRange allStates.length).filter isUnsafe).map pi).sum = MarkovChain.badMass isUnsafe pi := by
  unfold MarkovChain.badMass
  rw [← rowTotal_eq]
  induction List.finRange allStates.length with
  | nil => rfl
  | cons i is ih =>
    by_cases hi : isUnsafe i = true
    · rw [List.filter_cons_of_pos hi, List.map_cons, List.map_cons, List.sum_cons, List.sum_cons, ih, if_pos hi]
    · rw [List.filter_cons_of_neg hi, List.map_cons, List.sum_cons, ih, if_neg hi, zero_add]

theorem reachability_known {horizonK : ℤ} (hk : 1 ≤ horizonK) {s : Str} {i : Abstraction}
    (hs : stateIndex s = some i) (hmatrix : MarkovChain.RowStochastic model.transitionMatrix.1) :
    (reachabilityProbability model s horizonK).1 =
      .ok (MarkovChain.visitProbability model.transitionMatrix.1 isUnsafe horizonK.toNat i) := by
  unfold reachabilityProbability
  rw [if_neg (by omega), hs]
  dsimp only
  rw [unsafeMass_eq, ← MarkovChain.badMass_oneHot isUnsafe hmatrix, funext (propagateOnce_eq _)]
  rfl

/-- The matrix is that of the observations so far, and reachability within `k`
steps is the probability of a visit within `k` steps. -/
structure ReachabilityExact (smoothingAlpha selfLoopPrior : ℚ) (calls : List Call)
    (model : DTMCModel) : Prop where
  matrix : model.transitionMatrix.1 = smoothed smoothingAlpha selfLoopPrior (observed calls)
  stochastic : MarkovChain.RowStochastic model.transitionMatrix.1
  exact : ∀ s i horizonK, stateIndex s = some i → 1 ≤ horizonK →
    (reachabilityProbability model s horizonK).1 =
      .ok (MarkovChain.visitProbability model.transitionMatrix.1 isUnsafe horizonK.toNat i)
  unit : ∀ s horizonK p, (reachabilityProbability model s horizonK).1 = .ok p → p ∈ Set.Icc (0 : ℚ) 1
  ofUnsafe : ∀ s ∈ unsafeStates, ∀ horizonK, 1 ≤ horizonK →
    (reachabilityProbability model s horizonK).1 = .ok 1
  monotone : ∀ s horizonK horizonK' p p', horizonK ≤ horizonK' →
    (reachabilityProbability model s horizonK).1 = .ok p →
    (reachabilityProbability model s horizonK').1 = .ok p' → p ≤ p'

theorem reachability_returns {s : Str} {horizonK : ℤ} {p : ℚ}
    (h : (reachabilityProbability model s horizonK).1 = .ok p) :
    1 ≤ horizonK ∧ ((stateIndex s = none ∧ p = 0) ∨ ∃ i, stateIndex s = some i) := by
  unfold reachabilityProbability at h
  split at h
  · cases h
  · rename_i hk
    refine ⟨by omega, ?_⟩
    cases hs : stateIndex s with
    | none =>
      rw [hs] at h
      exact .inl ⟨rfl, (Except.ok.inj h).symm⟩
    | some i => exact .inr ⟨i, rfl⟩

theorem reachability_exact (smoothingAlpha selfLoopPrior : ℚ) (halpha : 0 < smoothingAlpha)
    (hprior : 0 ≤ selfLoopPrior) (calls : List Call) :
    ReachabilityExact smoothingAlpha selfLoopPrior calls
      ((DTMCModel.new smoothingAlpha selfLoopPrior).after calls) := by
  obtain ⟨hmatrix, -⟩ := (learned_after smoothingAlpha selfLoopPrior calls).matrix
  have hstochastic : MarkovChain.RowStochastic
      ((DTMCModel.new smoothingAlpha selfLoopPrior).after calls).transitionMatrix.1 := by
    rw [hmatrix]
    exact smoothed_stochastic halpha hprior fun i j => Nat.cast_nonneg _
  refine ⟨hmatrix, hstochastic, fun s i horizonK hs hk => reachability_known hk hs hstochastic, ?_, ?_, ?_⟩
  · intro s horizonK p h
    obtain ⟨hk, ⟨-, rfl⟩ | ⟨i, hs⟩⟩ := reachability_returns h
    · norm_num
    · obtain rfl := Except.ok.inj ((reachability_known hk hs hstochastic).symm.trans h)
      exact ⟨MarkovChain.visitProbability_nonneg _ hstochastic _ _,
        MarkovChain.visitProbability_le_one _ hstochastic _ _⟩
  · intro s hs horizonK hk
    obtain ⟨i, rfl⟩ := List.get_of_mem (List.mem_of_mem_filter hs)
    rw [reachability_known hk (stateIndex_eq_some.mpr rfl) hstochastic,
      MarkovChain.visitProbability_of_bad _ hstochastic (decide_eq_true hs)]
  · intro s horizonK horizonK' p p' hle h h'
    obtain ⟨hk, hknown⟩ := reachability_returns h
    obtain ⟨hk', hknown'⟩ := reachability_returns h'
    rcases hknown with ⟨hs, rfl⟩ | ⟨i, hs⟩
    · rcases hknown' with ⟨-, rfl⟩ | ⟨i, hs'⟩
      · exact le_rfl
      · rw [hs] at hs'
        cases hs'
    · obtain rfl := Except.ok.inj ((reachability_known hk hs hstochastic).symm.trans h)
      obtain rfl := Except.ok.inj ((reachability_known hk' hs hstochastic).symm.trans h')
      exact MarkovChain.visitProbability_mono _ hstochastic _ (by omega)

/-- An observed compromise between two queries. -/
theorem reachability_exact_sample :
    let calls := [.matrix, .observe (txt "agent_few:cap_low:compromise_low")
      (txt "agent_few:cap_low:compromise_high"), .reachability (txt "agent_few:cap_low:compromise_low") 10]
    ReachabilityExact (5 / 100) 50 calls ((DTMCModel.new (5 / 100) 50).after calls) :=
  reachability_exact _ _ (by norm_num) (by norm_num) _

end TexGovernance.Systemic
