import TexGovernance.Engine.Pdp

/-!
# The decision point only moves toward caution

Each stage after the router either returns its input or rebuilds it with the same fused numbers
and a verdict that is at least as cautious.
-/

namespace TexGovernance.Engine
open PyStr PyDict PyFloat Pipeline

variable {casefold lower : Str → Str}

structure Cautious (base r : RoutingResult) : Prop where
  verdict_le : base.verdict ≤ r.verdict
  finalScore_eq : r.finalScore = base.finalScore
  confidence_eq : r.confidence = base.confidence

instance : Std.Refl Cautious where
  refl _ := ⟨le_rfl, rfl, rfl⟩

instance : IsTrans RoutingResult Cautious where
  trans _ _ _ h h' := ⟨h.verdict_le.trans h'.verdict_le, h'.finalScore_eq.trans h.finalScore_eq,
    h'.confidence_eq.trans h.confidence_eq⟩

structure SameRuling (base r : RoutingResult) : Prop where
  verdict_eq : r.verdict = base.verdict
  finalScore_eq : r.finalScore = base.finalScore
  confidence_eq : r.confidence = base.confidence

instance : Std.Refl SameRuling where
  refl _ := ⟨rfl, rfl, rfl⟩

instance : IsTrans RoutingResult SameRuling where
  trans _ _ _ h h' := ⟨h'.verdict_eq.trans h.verdict_eq, h'.finalScore_eq.trans h.finalScore_eq,
    h'.confidence_eq.trans h.confidence_eq⟩

variable {base r : RoutingResult}

theorem rebuild_fields {verdict : Verdict} {d : Draft}
    (h : base.rebuild casefold verdict d = .ok r) :
    r.verdict = verdict ∧ r.finalScore = base.finalScore ∧ r.confidence = base.confidence := by
  obtain ⟨hv, hc, hf, -⟩ := RoutingResult.make_fields h
  exact ⟨hv, hf, hc⟩

theorem rebuild_cautious {verdict : Verdict} {d : Draft}
    (h : base.rebuild casefold verdict d = .ok r) (hle : base.verdict ≤ verdict) :
    Cautious base r := by
  obtain ⟨hv, hf, hc⟩ := rebuild_fields h
  exact ⟨hv ▸ hle, hf, hc⟩

theorem rebuild_sameRuling {d : Draft}
    (h : base.rebuild casefold base.verdict d = .ok r) : SameRuling base r := by
  obtain ⟨hv, hf, hc⟩ := rebuild_fields h
  exact ⟨hv, hf, hc⟩

theorem clean_append_nonblank {xs ys : List Str} (hxs : ∀ s ∈ xs, IsClean s)
    (hys : ∀ s ∈ ys, strip s ≠ []) : ∀ s ∈ xs ++ ys, strip s ≠ [] := by
  intro s hs
  rcases List.mem_append.mp hs with hs | hs
  · exact (hxs s hs).strip_ne_nil
  · exact hys s hs

def Demotes (casefold : Str → Str) (stage : Stage PyErr RoutingResult) : Prop :=
  ∀ base r, stage base = .ok r →
    r = base ∨ base.verdict = .permit ∧ ∃ d, base.rebuild casefold .abstain d = .ok r

def holdMarkers : List Str :=
  [systemicLookaheadFlag, rv4RecoverableFlag, cadenceHoldFlag, riskSpineFlag, pqNonRepudiationFlag,
    txt "crc_permit_region_exceeded"]

def DemotesMarked (casefold : Str → Str) (stage : Stage PyErr RoutingResult) : Prop :=
  ∀ base r, stage base = .ok r →
    r = base ∨ base.verdict = .permit ∧ ∃ d, base.rebuild casefold .abstain d = .ok r ∧
      base.uncertaintyFlags ⊆ d.uncertaintyFlags ∧ ∃ marker ∈ holdMarkers, marker ∈ d.uncertaintyFlags

theorem DemotesMarked.demotes {stage : Stage PyErr RoutingResult}
    (h : DemotesMarked casefold stage) : Demotes casefold stage := by
  intro base r hr
  rcases h base r hr with hsame | ⟨hpermit, d, hd, -⟩
  · exact .inl hsame
  · exact .inr ⟨hpermit, d, hd⟩

theorem lookaheadDraft_flags {lookahead : SystemicLookaheadOutcome} {d d' : Draft}
    (h : lookaheadDraft lookahead d = .ok d') :
    d'.uncertaintyFlags =
      d.uncertaintyFlags ++ if lookahead.exceeds then [systemicLookaheadFlag] else [] := by
  unfold lookaheadDraft at h
  cases hexceeds : lookahead.exceeds with
  | false =>
    rw [hexceeds] at h
    rw [← Except.ok.inj h]
    exact (List.append_nil _).symm
  | true =>
    rw [hexceeds] at h
    obtain ⟨finding, -, h⟩ := bind_ok h
    rw [← Except.ok.inj h]
    rfl

theorem recoverableDraft_flags {recoverable : List RV4PathViolation} {d d' : Draft}
    (h : recoverableDraft recoverable d = .ok d') :
    d'.uncertaintyFlags =
      d.uncertaintyFlags ++ if recoverable.isEmpty then [] else [rv4RecoverableFlag] := by
  unfold recoverableDraft at h
  cases hempty : recoverable.isEmpty with
  | true =>
    rw [hempty] at h
    rw [← Except.ok.inj h]
    exact (List.append_nil _).symm
  | false =>
    rw [hempty] at h
    obtain ⟨findings, -, h⟩ := bind_ok h
    rw [← Except.ok.inj h]
    rfl

theorem applyPredictiveHolds_demotes (lookahead : SystemicLookaheadOutcome)
    (recoverable : List RV4PathViolation) :
    DemotesMarked casefold (applyPredictiveHolds casefold lookahead recoverable) := by
  intro base r h
  unfold applyPredictiveHolds at h
  split at h
  · exact .inl (Except.ok.inj h).symm
  · rename_i hv
    split at h
    · exact .inl (Except.ok.inj h).symm
    · rename_i hquiet
      obtain ⟨d, hd, h⟩ := bind_ok h
      obtain ⟨d', hd', h⟩ := bind_ok h
      have hflags := recoverableDraft_flags hd'
      rw [lookaheadDraft_flags hd] at hflags
      refine .inr ⟨not_not.mp hv, d', h, ?_, ?_⟩
      · rw [hflags, List.append_assoc]
        exact List.subset_append_left _ _
      · rw [hflags]
        cases hexceeds : lookahead.exceeds with
        | true => exact ⟨systemicLookaheadFlag, by simp [holdMarkers], by simp⟩
        | false =>
          have hsome : recoverable ≠ [] := by simpa [hexceeds] using hquiet
          exact ⟨rv4RecoverableFlag, by simp [holdMarkers], by simp [hsome]⟩

theorem applyCadenceHold_demotes (assessment : CadenceAssessment) :
    DemotesMarked casefold (applyCadenceHold casefold assessment) := by
  intro base r h
  unfold applyCadenceHold at h
  split at h
  · exact .inl (Except.ok.inj h).symm
  · rename_i hv
    split at h
    · exact .inl (Except.ok.inj h).symm
    · obtain ⟨finding, -, h⟩ := bind_ok h
      exact .inr ⟨not_not.mp hv, _, h, List.subset_append_left _ _, cadenceHoldFlag,
        by simp [holdMarkers], List.mem_append_right _ (List.mem_singleton.mpr rfl)⟩

theorem applyRiskSpine_demotes (spine : Option SpineSignal) :
    DemotesMarked casefold (applyRiskSpine casefold spine) := by
  intro base r h
  unfold applyRiskSpine at h
  cases spine with
  | none => exact .inl (Except.ok.inj h).symm
  | some signal =>
    simp only at h
    split at h
    · exact .inl (Except.ok.inj h).symm
    · split at h
      · exact .inl (Except.ok.inj h).symm
      · rename_i hv
        cases hcombined : signal.combined with
        | none =>
          rw [hcombined] at h
          cases h
        | some villePValue =>
          rw [hcombined] at h
          obtain ⟨finding, -, h⟩ := bind_ok h
          exact .inr ⟨not_not.mp hv, _, h, List.subset_append_left _ _, riskSpineFlag,
            by simp [holdMarkers], List.mem_append_right _ (List.mem_singleton.mpr rfl)⟩

theorem applyPqDurabilityHold_demotes (assessment : PQDurabilityAssessment) :
    DemotesMarked casefold (applyPqDurabilityHold casefold assessment) := by
  intro base r h
  unfold applyPqDurabilityHold at h
  split at h
  · exact .inl (Except.ok.inj h).symm
  · rename_i hv
    split at h
    · exact .inl (Except.ok.inj h).symm
    · obtain ⟨finding, -, h⟩ := bind_ok h
      exact .inr ⟨not_not.mp hv, _, h, List.subset_append_left _ _, pqNonRepudiationFlag,
        by simp [holdMarkers], List.mem_append_right _ (List.mem_singleton.mpr rfl)⟩

theorem crcGate_demoted {gate : ConformalRiskGate} {verdict : Verdict} {finalScore : ℚ}
    (h : (gate.apply verdict finalScore).demoted = true) :
    verdict = .permit ∧
      (gate.apply verdict finalScore).uncertaintyFlags = [txt "crc_permit_region_exceeded"] := by
  unfold ConformalRiskGate.apply at *
  split at h
  · cases h
  · rename_i hpass
    refine ⟨not_not.mp fun hv => hpass (.inr hv), ?_⟩
    rw [if_neg hpass]
    split at h
    · cases h
    · rename_i hcertified
      rw [if_neg hcertified]

theorem crcStage_demotes (gate : ConformalRiskGate) :
    DemotesMarked casefold (crcStage casefold gate) := by
  intro base r h
  unfold crcStage at h
  simp only at h
  split at h
  · rename_i hdemoted
    obtain ⟨hpermit, hflags⟩ := crcGate_demoted hdemoted
    refine .inr ⟨hpermit, _, h, List.subset_append_left _ _, txt "crc_permit_region_exceeded",
      by simp [holdMarkers], ?_⟩
    rw [hflags]
    exact List.mem_append_right _ (List.mem_singleton.mpr rfl)
  · exact .inl (Except.ok.inj h).symm

theorem Demotes.respects {stage : Stage PyErr RoutingResult} (h : Demotes casefold stage) :
    Respects Cautious stage := by
  intro base r hr
  rcases h base r hr with rfl | ⟨hpermit, d, hd⟩
  · exact refl _
  · apply rebuild_cautious hd
    rw [hpermit]
    decide

def PassesThrough (stage : Stage PyErr RoutingResult) : Prop :=
  ∀ base : RoutingResult, base.verdict ≠ .permit → stage base = .ok base

theorem applyPredictiveHolds_passes (lookahead : SystemicLookaheadOutcome)
    (recoverable : List RV4PathViolation) :
    PassesThrough (applyPredictiveHolds casefold lookahead recoverable) := by
  intro base hv
  rw [applyPredictiveHolds, if_pos hv]

theorem applyCadenceHold_passes (assessment : CadenceAssessment) :
    PassesThrough (applyCadenceHold casefold assessment) := by
  intro base hv
  rw [applyCadenceHold, if_pos hv]

theorem applyRiskSpine_passes (spine : Option SpineSignal) :
    PassesThrough (applyRiskSpine casefold spine) := by
  intro base hv
  unfold applyRiskSpine
  cases spine with
  | none => rfl
  | some signal =>
    simp only
    rw [if_pos hv, ite_self]

theorem applyPqDurabilityHold_passes (assessment : PQDurabilityAssessment) :
    PassesThrough (applyPqDurabilityHold casefold assessment) := by
  intro base hv
  rw [applyPqDurabilityHold, if_pos hv]

theorem crcStage_passes (gate : ConformalRiskGate) : PassesThrough (crcStage casefold gate) := by
  intro base hv
  unfold crcStage
  simp only
  split
  · rename_i hdemoted
    exact absurd (crcGate_demoted hdemoted).1 hv
  · rfl

theorem softContractStage_respects (outcome : ContractEvaluationOutcome) :
    Respects Cautious (softContractStage casefold outcome) := by
  intro base r h
  unfold softContractStage mergeSoftContractSignals at h
  simp only at h
  split at h
  · split at h
    · rename_i hpermit
      apply rebuild_cautious h
      rw [hpermit]
      decide
    · exact rebuild_cautious h le_rfl
  · rw [Except.ok.inj h]
    exact refl _

theorem pathStage_respects (outcome : PathPolicyOutcome) :
    Respects Cautious (pathStage casefold outcome) := by
  intro base r h
  unfold pathStage mergePathSignals at h
  simp only at h
  split at h
  · split at h
    · rename_i hwarn
      apply rebuild_cautious h
      rw [hwarn.2]
      decide
    · exact rebuild_cautious h le_rfl
  · rw [Except.ok.inj h]
    exact refl _

variable {scores : Dict Str UnitScore}

theorem rebuild_returns {base : RoutingResult} {flags : List Str} {findings : List Finding}
    (hflags : ∀ s ∈ flags, strip s ≠ []) :
    ∃ r, base.rebuild casefold base.verdict
      ⟨base.reasons, base.uncertaintyFlags ++ flags, findings, scores⟩ = .ok r ∧
      SameRuling base r := by
  have hreturns : ∃ r, base.rebuild casefold base.verdict
      ⟨base.reasons, base.uncertaintyFlags ++ flags, findings, scores⟩ = .ok r := by
    unfold RoutingResult.rebuild
    apply RoutingResult.make_returns
    · intro s hs
      exact (base.reasons_clean s hs).strip_ne_nil
    · exact clean_append_nonblank base.flags_clean hflags
  obtain ⟨r, hr⟩ := hreturns
  exact ⟨r, hr, rebuild_sameRuling hr⟩

def Held (r : RoutingResult) : Prop := r.verdict ≠ .permit

theorem SameRuling.held (h : SameRuling base r) (hb : Held base) :
    Held r := by
  unfold Held
  rw [h.verdict_eq]
  exact hb

theorem softContractStage_keeps (outcome : ContractEvaluationOutcome) :
    Keeps Held SameRuling (softContractStage casefold outcome) := by
  intro base hb
  unfold softContractStage mergeSoftContractSignals
  simp only
  split
  · rw [if_neg hb]
    obtain ⟨r, hr, hsame⟩ := rebuild_returns outcome.flags_nonblank
    exact ⟨r, hr, hsame.held hb, hsame⟩
  · exact ⟨base, rfl, hb, refl base⟩

theorem pathStage_keeps (outcome : PathPolicyOutcome) :
    Keeps Held SameRuling (pathStage casefold outcome) := by
  intro base hb
  unfold pathStage mergePathSignals
  simp only
  split
  · rw [if_neg fun h => hb h.2]
    obtain ⟨r, hr, hsame⟩ := rebuild_returns outcome.flags_nonblank
    exact ⟨r, hr, hsame.held hb, hsame⟩
  · exact ⟨base, rfl, hb, refl base⟩

theorem PassesThrough.keeps {stage : Stage PyErr RoutingResult} (h : PassesThrough stage) :
    Keeps Held SameRuling stage := by
  intro base hb
  exact ⟨base, h base hb, hb, refl base⟩

section Pipeline

variable (casefold)

theorem stagesAfterRouter_respect (o : ComponentOutputs) :
    ∀ stage ∈ stagesAfterRouter casefold o, Respects Cautious stage := by
  simp only [stagesAfterRouter, List.forall_mem_cons, List.not_mem_nil, false_implies,
    implies_true, and_true]
  exact ⟨softContractStage_respects _, pathStage_respects _,
    (DemotesMarked.demotes (applyPredictiveHolds_demotes _ _)).respects,
    (DemotesMarked.demotes (applyCadenceHold_demotes _)).respects,
    (DemotesMarked.demotes (applyRiskSpine_demotes _)).respects,
    (DemotesMarked.demotes (applyPqDurabilityHold_demotes _)).respects,
    (DemotesMarked.demotes (crcStage_demotes _)).respects⟩

theorem stagesAfterRouter_keep (o : ComponentOutputs) :
    ∀ stage ∈ stagesAfterRouter casefold o, Keeps Held SameRuling stage := by
  simp only [stagesAfterRouter, List.forall_mem_cons, List.not_mem_nil, false_implies,
    implies_true, and_true]
  exact ⟨softContractStage_keeps _, pathStage_keeps _, (applyPredictiveHolds_passes _ _).keeps,
    (applyCadenceHold_passes _).keeps, (applyRiskSpine_passes _).keeps,
    (applyPqDurabilityHold_passes _).keeps, (crcStage_passes _).keeps⟩

theorem holds_passThrough (o : ComponentOutputs) :
    ∀ stage ∈ (stagesAfterRouter casefold o).drop 2, PassesThrough stage := by
  simp only [stagesAfterRouter, List.drop_succ_cons, List.drop_zero, List.forall_mem_cons,
    List.not_mem_nil, false_implies, implies_true, and_true]
  exact ⟨applyPredictiveHolds_passes _ _, applyCadenceHold_passes _, applyRiskSpine_passes _,
    applyPqDurabilityHold_passes _, crcStage_passes _⟩

theorem evaluateRouting_eq_run (o : ComponentOutputs) (h : hardViolation o = false) :
    evaluateRouting casefold lower o =
      (run (stagesAfterRouter casefold o) o.baseRoutingResult >>=
        applyPrecedentAutoresolve casefold lower o.autoresolve) := by
  unfold evaluateRouting routeOrForbid
  rw [h]
  simp only [Bool.false_eq_true, if_false, stagesAfterRouter, run, bind_assoc]
  rfl

end Pipeline

theorem textOr_nonblank {value : Option Str} {default : Str}
    (hvalue : ∀ s, value = some s → strip s ≠ []) (hdefault : strip default ≠ []) :
    strip (textOr value default) ≠ [] := by
  cases value with
  | none => exact hdefault
  | some s =>
    simp only [textOr]
    split
    · exact hdefault
    · exact hvalue s rfl

theorem firedReasons_nonblank (o : ComponentOutputs) : ∀ s ∈ firedReasons o, strip s ≠ [] := by
  intro s hs
  rcases List.mem_append.mp hs with hs | hs
  · rcases List.mem_append.mp hs with hs | hs
    · split at hs
      · rw [List.mem_singleton.mp hs]
        exact textOr_nonblank o.contractOutcome.forbidReason_nonblank (by decide)
      · cases hs
    · split at hs
      · rw [List.mem_singleton.mp hs]
        exact textOr_nonblank o.pathOutcome.forbidReason_nonblank (by decide)
      · cases hs
  · split at hs
    · obtain ⟨deny, -, rfl⟩ := List.mem_map.mp hs
      exact deny.reason.property
    · cases hs

theorem hardReasons_nonblank (o : ComponentOutputs) : ∀ s ∈ hardReasons o, strip s ≠ [] := by
  unfold hardReasons
  split
  · intro s hs
    rw [List.mem_singleton.mp hs]
    decide
  · exact firedReasons_nonblank o

def KeysNonblank (scores : Dict Str UnitScore) : Prop := ∀ k ∈ scores.keys, strip k ≠ []

theorem KeysNonblank.set {k : Str} (h : KeysNonblank scores)
    (hk : strip k ≠ []) (v : UnitScore) : KeysNonblank (scores.set k v) := by
  intro k' hk'
  rcases (Dict.mem_keys_set scores k k' v).mp hk' with rfl | hmem
  · exact hk
  · exact h k' hmem

theorem KeysNonblank.ite {c : Prop} [Decidable c] {a b : Dict Str UnitScore}
    (ha : KeysNonblank a) (hb : KeysNonblank b) : KeysNonblank (if c then a else b) := by
  split
  · exact ha
  · exact hb

theorem KeysNonblank.foldl_denies (h : KeysNonblank scores) (denies : List StructuralDeny) :
    KeysNonblank (denies.foldl
      (fun acc deny => acc.set (txt "structural_" ++ deny.specialist) 1) scores) := by
  induction denies generalizing scores with
  | nil => exact h
  | cons deny rest ih =>
    apply ih
    apply h.set
    exact strip_append_ne_nil _ (by decide)

theorem hardScores_nonblank (o : ComponentOutputs) : KeysNonblank (hardScores o) := by
  have hempty : KeysNonblank Dict.empty := fun _ hk => nomatch hk
  have hcontracts : KeysNonblank (if o.contractOutcome.hasHardViolation then
      (Dict.empty : Dict Str UnitScore).set (txt "contracts") 1 else Dict.empty) :=
    (hempty.set (by decide) 1).ite hempty
  have hpath := (hcontracts.set (k := txt "path_policy") (by decide) 1).ite hcontracts
    (c := o.pathOutcome.hasBlock = true)
  have hfloor := ((hpath.set (k := txt "structural_floor") (by decide) 1).foldl_denies
    o.structuralFloor.denies).ite hpath (c := o.structuralFloor.fired = true)
  exact (hfloor.set (by decide) 1).ite hfloor

theorem buildHardForbid_returns (casefold : Str → Str) (o : ComponentOutputs) :
    ∃ r, buildHardForbidRoutingResult casefold o = .ok r ∧ r.verdict = .forbid ∧
      r.finalScore = 1 ∧ r.confidence = 1 ∧ KeysNonblank r.scores := by
  have hreturns : ∃ r, buildHardForbidRoutingResult casefold o = .ok r := by
    unfold buildHardForbidRoutingResult
    apply RoutingResult.make_returns (hardReasons_nonblank o)
    intro s hs
    cases hs
  obtain ⟨r, hr⟩ := hreturns
  obtain ⟨hv, hc, hf, hscores⟩ := RoutingResult.make_fields hr
  refine ⟨r, hr, hv, hf, hc, ?_⟩
  rw [hscores]
  exact hardScores_nonblank o

theorem validateScores_returns (h : KeysNonblank scores) :
    ∃ out, validateScores scores = .ok out := by
  apply foldlM_returns
  intro e he acc
  rw [if_neg (h e.1 (List.mem_map_of_mem he))]
  exact ⟨_, rfl⟩

theorem validateTextList_returns {values : List Str} (h : ∀ s ∈ values, IsClean s) :
    ∃ out, validateTextList values = .ok out := by
  apply foldlM_returns
  intro s hs acc
  rw [if_neg (h s hs).strip_ne_nil]
  split
  · exact ⟨_, rfl⟩
  · exact ⟨_, rfl⟩

theorem buildDecision_fields {r : RoutingResult} {d : Decision} (h : buildDecision r = .ok d) :
    d.verdict = r.verdict ∧ d.finalScore = r.finalScore ∧ d.confidence = r.confidence := by
  obtain ⟨scores, -, h⟩ := bind_ok h
  obtain ⟨reasons, -, h⟩ := bind_ok h
  obtain ⟨flags, -, h⟩ := bind_ok h
  split at h
  · cases h
  · split at h
    · cases h
    · rw [← Except.ok.inj h]
      exact ⟨rfl, rfl, rfl⟩

theorem buildDecision_forbid_returns {r : RoutingResult} (hkeys : KeysNonblank r.scores)
    (hv : r.verdict = .forbid) (hf : r.finalScore = 1) : ∃ d, buildDecision r = .ok d := by
  obtain ⟨scores, hscores⟩ := validateScores_returns hkeys
  obtain ⟨reasons, hreasons⟩ := validateTextList_returns r.reasons_clean
  obtain ⟨flags, hflags⟩ := validateTextList_returns r.flags_clean
  have habstain : ¬ (r.verdict = .abstain ∧ flags = []) := by
    rw [hv]
    rintro ⟨h, -⟩
    cases h
  have hsignal : ¬ (r.verdict = .forbid ∧
      ¬ (0 < r.finalScore.val ∨ r.findings ≠ [] ∨ reasons ≠ [])) := by
    rw [hf]
    rintro ⟨-, h⟩
    exact h (.inl one_pos)
  unfold buildDecision
  rw [hscores, hreasons, hflags]
  exact ⟨_, (if_neg habstain).trans (if_neg hsignal)⟩

theorem applyPrecedentAutoresolve_cases {ctx : AutoresolveContext}
    (h : applyPrecedentAutoresolve casefold lower ctx base = .ok r) :
    r = base ∨ base.verdict = .abstain ∧ ∃ d, base.rebuild casefold .permit d = .ok r := by
  unfold applyPrecedentAutoresolve at h
  split at h
  · exact .inl (Except.ok.inj h).symm
  split at h
  · exact .inl (Except.ok.inj h).symm
  rename_i hv
  split at h
  · exact .inl (Except.ok.inj h).symm
  split at h
  · exact .inl (Except.ok.inj h).symm
  split at h
  · simp only at h
    split at h
    · exact .inl (Except.ok.inj h).symm
    split at h
    · exact .inl (Except.ok.inj h).symm
    split at h
    · exact .inl (Except.ok.inj h).symm
    · exact .inr ⟨not_not.mp hv, _, h⟩
  · exact .inl (Except.ok.inj h).symm

theorem applyPrecedentAutoresolve_of_ne_abstain {ctx : AutoresolveContext} {base : RoutingResult}
    (h : base.verdict ≠ .abstain) : applyPrecedentAutoresolve casefold lower ctx base = .ok base := by
  unfold applyPrecedentAutoresolve
  rw [if_pos h, ite_self]

theorem applyPrecedentAutoresolve_numbers {ctx : AutoresolveContext}
    (h : applyPrecedentAutoresolve casefold lower ctx base = .ok r) :
    r.finalScore = base.finalScore ∧ r.confidence = base.confidence := by
  rcases applyPrecedentAutoresolve_cases h with rfl | ⟨-, d, hd⟩
  · exact ⟨rfl, rfl⟩
  · exact (rebuild_fields hd).2

theorem evaluate_of_hardViolation (o : ComponentOutputs) (h : hardViolation o = true) :
    ∃ d, evaluate casefold lower o = .ok d ∧ d.verdict = .forbid ∧ d.finalScore = 1 ∧
      d.confidence = 1 := by
  obtain ⟨r, hr, hv, hf, hc, hkeys⟩ := buildHardForbid_returns casefold o
  have hcrc : crcStage casefold o.crcGate r = .ok r := crcStage_passes o.crcGate r (by
    rw [hv]
    decide)
  have hprecedent : applyPrecedentAutoresolve casefold lower o.autoresolve r = .ok r :=
    applyPrecedentAutoresolve_of_ne_abstain (by
      rw [hv]
      decide)
  have hrouting : evaluateRouting casefold lower o = .ok r := by
    unfold evaluateRouting routeOrForbid
    rw [h, if_pos rfl, hr]
    change (crcStage casefold o.crcGate r >>= _) = _
    rw [hcrc]
    exact hprecedent
  obtain ⟨d, hd⟩ := buildDecision_forbid_returns hkeys hv hf
  obtain ⟨hdv, hdf, hdc⟩ := buildDecision_fields hd
  refine ⟨d, ?_, hdv.trans hv, hdf.trans hf, hdc.trans hc⟩
  unfold evaluate
  rw [hrouting]
  exact hd

end TexGovernance.Engine
