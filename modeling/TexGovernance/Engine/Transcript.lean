import TexGovernance.Engine.Routing

/-!
# Verdict transcripts and their witness (`engine/verdict_transcript.py`)

The recorded stages of an evaluation and `derive_monotonicity_witness`, which walks them with a
running verdict and risk. Ids, details and hashes are left out: the walk does not read them.
-/

namespace TexGovernance.Engine
open PyStr PyFloat

inductive StageDirection where
  | evidence
  | held
  | towardCaution
  | towardPermit
  deriving DecidableEq, Repr

structure TranscriptStage where
  index : ℕ
  stage : Str
  signalId : Str
  verdictBefore : Verdict
  verdictAfter : Verdict
  riskBefore : UnitScore
  riskAfter : UnitScore
  direction : StageDirection
  applied : Bool
  signalScore : Option UnitScore

structure VerdictTranscript where
  finalVerdict : Verdict
  finalRiskScore : UnitScore
  structuralFloorFired : Bool
  hardViolation : Bool
  stages : List TranscriptStage

inductive WitnessViolationKind where
  | verdictRaisedTowardPermit
  | riskScoreDecreased
  | continuityBreak
  | floorNotForbid
  | finalMismatch
  deriving DecidableEq, Repr

structure WitnessViolation where
  stageIndex : ℕ
  stage : Str
  kind : WitnessViolationKind
  detail : Str
  verdictBefore : Verdict
  verdictAfter : Verdict
  riskBefore : UnitScore
  riskAfter : UnitScore

structure MonotonicityWitness where
  holds : Bool
  finalVerdict : Verdict
  nStages : ℕ
  nTransformingStages : ℕ
  structuralFloorFired : Bool
  structuralFloorForcedForbid : Bool
  violations : List WitnessViolation

def eps : ℚ := 1 / 1000000000

/-- `abs(a - b) > _EPS` does not hold. -/
def Near (a b : ℚ) : Prop := |a - b| ≤ eps

instance (a b : ℚ) : Decidable (Near a b) := inferInstanceAs (Decidable (|a - b| ≤ eps))

def floorStage : Str := txt "structural_forbid_floor"

def Verdict.text : Verdict → Str
  | .permit => txt "PERMIT"
  | .abstain => txt "ABSTAIN"
  | .forbid => txt "FORBID"

structure Walk where
  violations : List WitnessViolation
  nTransforming : ℕ
  forcedForbid : Bool
  runningVerdict : Verdict
  runningRisk : UnitScore
  haveRunning : Bool

def Walk.start : Walk := ⟨[], 0, false, .permit, 0, false⟩

section Walk

variable (floatText : ℚ → Str)

def stateText (verdict : Verdict) (risk : ℚ) : Str :=
  txt "(" ++ verdict.text ++ txt ", " ++ floatText risk ++ txt ")"

def violationOf (stage : TranscriptStage) (kind : WitnessViolationKind) (detail : Str) :
    WitnessViolation :=
  ⟨stage.index, stage.stage, kind, detail, stage.verdictBefore, stage.verdictAfter,
    stage.riskBefore, stage.riskAfter⟩

def evidenceViolations (stage : TranscriptStage) : List WitnessViolation :=
  if stage.verdictBefore ≠ stage.verdictAfter ∨ ¬ Near stage.riskAfter stage.riskBefore then
    [violationOf stage .continuityBreak
      (txt "an EVIDENCE stage changed the running verdict/risk; evidence stages must be non-transforming")]
  else []

def continuityViolations (w : Walk) (stage : TranscriptStage) : List WitnessViolation :=
  if w.haveRunning ∧
      (stage.verdictBefore ≠ w.runningVerdict ∨ ¬ Near stage.riskBefore w.runningRisk) then
    [violationOf stage .continuityBreak
      (txt "stage starts at " ++ stateText floatText stage.verdictBefore stage.riskBefore ++
        txt " but the running state is " ++ stateText floatText w.runningVerdict w.runningRisk)]
  else []

def verdictViolations (stage : TranscriptStage) : List WitnessViolation :=
  if stage.verdictAfter.caution < stage.verdictBefore.caution then
    [violationOf stage .verdictRaisedTowardPermit
      (txt "verdict moved " ++ stage.verdictBefore.text ++ txt " → " ++ stage.verdictAfter.text ++
        txt " (toward PERMIT)")]
  else []

def riskViolations (stage : TranscriptStage) : List WitnessViolation :=
  if stage.riskAfter.val < stage.riskBefore.val - eps then
    [violationOf stage .riskScoreDecreased
      (txt "risk score dropped " ++ floatText stage.riskBefore ++ txt " → " ++
        floatText stage.riskAfter ++ txt " (relaxed toward PERMIT)")]
  else []

def appliesFloor (stage : TranscriptStage) : Bool := stage.stage = floorStage && stage.applied

def forcesForbid (stage : TranscriptStage) : Bool :=
  stage.verdictAfter = .forbid && decide (1 - eps ≤ stage.riskAfter.val)

def floorViolations (stage : TranscriptStage) : List WitnessViolation :=
  if appliesFloor stage ∧ ¬ forcesForbid stage then
    [violationOf stage .floorNotForbid
      (txt "structural floor applied but did not force FORBID@1.0 (got " ++
        stage.verdictAfter.text ++ txt "@" ++ floatText stage.riskAfter ++ txt ")")]
  else []

def Walk.step (w : Walk) (stage : TranscriptStage) : Walk :=
  if stage.direction = .evidence then
    { w with violations := w.violations ++ evidenceViolations stage }
  else
    { violations := w.violations ++ continuityViolations floatText w stage ++
        verdictViolations stage ++ riskViolations floatText stage ++ floorViolations floatText stage
      nTransforming := w.nTransforming + 1
      forcedForbid := w.forcedForbid || (appliesFloor stage && forcesForbid stage)
      runningVerdict := stage.verdictAfter
      runningRisk := stage.riskAfter
      haveRunning := true }

def Walk.run (w : Walk) (stages : List TranscriptStage) : Walk :=
  stages.foldl (Walk.step floatText) w

end Walk

/-- `_round_score`: clamp, then `round(.., 6)`. -/
def roundScore (value : ℚ) : UnitScore :=
  ⟨roundHalfEven ((clampUnit value).val * 1000000) / 1000000, by
    have hrounded := roundHalfEven_unit (clampUnit value).property (by norm_num : 0 < 1000000)
    exact_mod_cast hrounded⟩

def finalViolations (floatText : ℚ → Str) (t : VerdictTranscript) (w : Walk) :
    List WitnessViolation :=
  (if w.haveRunning ∧
      (w.runningVerdict ≠ t.finalVerdict ∨ ¬ Near w.runningRisk t.finalRiskScore) then
    [⟨t.stages.length, txt "<final>", .finalMismatch,
      txt "trace ends at " ++ stateText floatText w.runningVerdict w.runningRisk ++
        txt " but transcript.final = " ++ stateText floatText t.finalVerdict t.finalRiskScore,
      w.runningVerdict, t.finalVerdict, roundScore w.runningRisk, t.finalRiskScore⟩]
  else []) ++
  (if t.structuralFloorFired ∧ ¬ w.forcedForbid then
    [⟨t.stages.length, floorStage, .floorNotForbid,
      txt "transcript marks the structural floor fired, but no applied floor stage forced FORBID@1.0",
      .permit, t.finalVerdict, 0, t.finalRiskScore⟩]
  else [])

def deriveMonotonicityWitness (floatText : ℚ → Str) (t : VerdictTranscript) :
    MonotonicityWitness :=
  let w := Walk.start.run floatText t.stages
  let violations := w.violations ++ finalViolations floatText t w
  { holds := violations.isEmpty
    finalVerdict := t.finalVerdict
    nStages := t.stages.length
    nTransformingStages := w.nTransforming
    structuralFloorFired := t.structuralFloorFired
    structuralFloorForcedForbid := w.forcedForbid
    violations := violations }

def transformingOf (stages : List TranscriptStage) : List TranscriptStage :=
  stages.filter fun s => s.direction ≠ .evidence

def transforming (t : VerdictTranscript) : List TranscriptStage := transformingOf t.stages

def Threads (verdict : Verdict) (risk : ℚ) : List TranscriptStage → Prop
  | [] => True
  | s :: rest => s.verdictBefore = verdict ∧ Near s.riskBefore risk ∧
      s.verdictBefore ≤ s.verdictAfter ∧ Threads s.verdictAfter s.riskAfter rest

def endState (verdict : Verdict) (risk : ℚ) : List TranscriptStage → Verdict × ℚ
  | [] => (verdict, risk)
  | s :: rest => endState s.verdictAfter s.riskAfter rest

structure Certified (t : VerdictTranscript) : Prop where
  threads : Threads .permit 0 (transforming t)
  ends_verdict : (endState .permit 0 (transforming t)).1 = t.finalVerdict
  ends_risk : Near (endState .permit 0 (transforming t)).2 t.finalRiskScore
  forbids : t.structuralFloorFired = true ∨ t.hardViolation = true →
    t.finalVerdict = .forbid ∧ Near t.finalRiskScore 1

def StartsAtPrior (t : VerdictTranscript) : Prop :=
  match transforming t with
  | [] => t.finalVerdict = .permit ∧ Near 0 t.finalRiskScore
  | s :: _ => s.verdictBefore = .permit ∧ Near s.riskBefore 0

structure Anchored (t : VerdictTranscript) : Prop where
  starts : StartsAtPrior t
  hard_forbid : t.hardViolation = true → t.structuralFloorFired = false → t.finalVerdict = .forbid
  full_risk : t.structuralFloorFired = true ∨ t.hardViolation = true → 1 - eps ≤ t.finalRiskScore.val

theorem near_one_iff (r : UnitScore) : Near r 1 ↔ 1 - eps ≤ r.val := by
  have hle : r.val ≤ 1 := r.property.2
  unfold Near
  rw [abs_le]
  constructor
  · intro h
    linarith [h.1]
  · intro h
    have heps : (0 : ℚ) ≤ eps := by
      unfold eps
      norm_num
    exact ⟨by linarith, by linarith⟩

section Walk

variable {floatText : ℚ → Str} {w : Walk}

theorem ite_singleton_eq_nil {α : Type} {c : Prop} [Decidable c] {x : α} :
    (if c then [x] else []) = [] ↔ ¬ c := by
  split
  · rename_i h
    exact ⟨fun hnil => absurd hnil (List.cons_ne_nil _ _), fun hno => absurd h hno⟩
  · rename_i h
    exact ⟨fun _ => h, fun _ => rfl⟩

structure CleanStep (w : Walk) (s : TranscriptStage) : Prop where
  continuous : w.haveRunning = true →
    s.verdictBefore = w.runningVerdict ∧ Near s.riskBefore w.runningRisk
  cautious : s.verdictBefore ≤ s.verdictAfter

theorem step_clean {s : TranscriptStage} (h : (w.step floatText s).violations = []) :
    w.violations = [] ∧ (s.direction ≠ .evidence → CleanStep w s) := by
  unfold Walk.step at h
  split at h
  · rename_i hevidence
    exact ⟨(List.append_eq_nil_iff.mp h).1, fun hne => absurd hevidence hne⟩
  · simp only [List.append_eq_nil_iff] at h
    obtain ⟨⟨⟨⟨hw, hcontinuity⟩, hverdict⟩, -⟩, -⟩ := h
    refine ⟨hw, fun _ => ⟨?_, ?_⟩⟩
    · intro hhave
      unfold continuityViolations at hcontinuity
      rw [ite_singleton_eq_nil] at hcontinuity
      by_contra hno
      apply hcontinuity
      refine ⟨hhave, ?_⟩
      by_cases hv : s.verdictBefore = w.runningVerdict
      · exact .inr fun hnear => hno ⟨hv, hnear⟩
      · exact .inl hv
    · unfold verdictViolations at hverdict
      rw [ite_singleton_eq_nil, not_lt] at hverdict
      exact hverdict

theorem run_clean {stages : List TranscriptStage}
    (h : (w.run floatText stages).violations = []) : w.violations = [] := by
  induction stages generalizing w with
  | nil => exact h
  | cons s rest ih => exact (step_clean (ih h)).1

theorem step_evidence {s : TranscriptStage} (h : s.direction = .evidence) :
    w.step floatText s = { w with violations := w.violations ++ evidenceViolations s } := by
  unfold Walk.step
  rw [if_pos h]

variable (floatText w) in
theorem step_transforming {s : TranscriptStage} (h : s.direction ≠ .evidence) :
    (w.step floatText s).runningVerdict = s.verdictAfter ∧
      (w.step floatText s).runningRisk = s.riskAfter ∧ (w.step floatText s).haveRunning = true ∧
      (w.step floatText s).forcedForbid =
        (w.forcedForbid || (appliesFloor s && forcesForbid s)) := by
  unfold Walk.step
  rw [if_neg h]
  exact ⟨rfl, rfl, rfl, rfl⟩

theorem run_threads {stages : List TranscriptStage}
    (h : (w.run floatText stages).violations = []) (hhave : w.haveRunning = true) :
    Threads w.runningVerdict w.runningRisk (transformingOf stages) ∧
      (w.run floatText stages).haveRunning = true ∧
      ((w.run floatText stages).runningVerdict, (w.run floatText stages).runningRisk.val) =
        endState w.runningVerdict w.runningRisk (transformingOf stages) := by
  induction stages generalizing w with
  | nil => exact ⟨trivial, hhave, rfl⟩
  | cons s rest ih =>
    have hstep := step_clean (run_clean (w := w.step floatText s) h)
    unfold transformingOf at *
    by_cases hevidence : s.direction = .evidence
    · rw [List.filter_cons_of_neg (by simp [hevidence])]
      have hrest := ih (w := w.step floatText s) h (by rw [step_evidence hevidence]; exact hhave)
      rw [step_evidence hevidence] at hrest
      simp only [Walk.run, List.foldl_cons, step_evidence hevidence] at hrest ⊢
      exact hrest
    · rw [List.filter_cons_of_pos (by simp [hevidence])]
      obtain ⟨hv, hr, hh, -⟩ := step_transforming floatText w hevidence
      obtain ⟨hthreads, hhave', hend⟩ := ih (w := w.step floatText s) h hh
      rw [hv, hr] at hthreads hend
      have hclean := hstep.2 hevidence
      obtain ⟨hbefore, hnear⟩ := hclean.continuous hhave
      exact ⟨⟨hbefore, hnear, hclean.cautious, hthreads⟩, hhave', hend⟩

theorem run_start {stages : List TranscriptStage}
    (h : (w.run floatText stages).violations = []) (hhave : w.haveRunning = false) :
    match transformingOf stages with
    | [] => (w.run floatText stages).haveRunning = false
    | s :: rest => s.verdictBefore ≤ s.verdictAfter ∧ Threads s.verdictAfter s.riskAfter rest ∧
        (w.run floatText stages).haveRunning = true ∧
        ((w.run floatText stages).runningVerdict, (w.run floatText stages).runningRisk.val) =
          endState s.verdictAfter s.riskAfter rest := by
  induction stages generalizing w with
  | nil => exact hhave
  | cons s rest ih =>
    unfold transformingOf at *
    by_cases hevidence : s.direction = .evidence
    · rw [List.filter_cons_of_neg (by simp [hevidence])]
      exact ih (w := w.step floatText s) h (by rw [step_evidence hevidence]; exact hhave)
    · rw [List.filter_cons_of_pos (by simp [hevidence])]
      obtain ⟨hv, hr, hh, -⟩ := step_transforming floatText w hevidence
      obtain ⟨hthreads, hhave', hend⟩ := run_threads (w := w.step floatText s) h hh
      rw [hv, hr] at hthreads hend
      have hclean := (step_clean (run_clean (w := w.step floatText s) h)).2 hevidence
      exact ⟨hclean.cautious, hthreads, hhave', hend⟩

theorem forbid_of_le {v : Verdict} (h : Verdict.forbid ≤ v) : v = .forbid := by
  cases v with
  | permit => exact absurd h (by decide)
  | abstain => exact absurd h (by decide)
  | forbid => rfl

theorem run_forced {stages : List TranscriptStage}
    (h : (w.run floatText stages).violations = [])
    (hw : w.forcedForbid = true → w.haveRunning = true ∧ w.runningVerdict = .forbid)
    (hforced : (w.run floatText stages).forcedForbid = true) :
    (w.run floatText stages).haveRunning = true ∧
      (w.run floatText stages).runningVerdict = .forbid := by
  induction stages generalizing w with
  | nil => exact hw hforced
  | cons s rest ih =>
    have hclean := step_clean (run_clean (w := w.step floatText s) h)
    apply ih (w := w.step floatText s) h _ hforced
    intro hstep
    by_cases hevidence : s.direction = .evidence
    · rw [step_evidence hevidence] at hstep ⊢
      exact hw hstep
    · obtain ⟨hv, -, hh, hf⟩ := step_transforming floatText w hevidence
      refine ⟨hh, ?_⟩
      rw [hf, Bool.or_eq_true] at hstep
      rw [hv]
      rcases hstep with hbefore | hnow
      · obtain ⟨hhave, hforbid⟩ := hw hbefore
        have hcautious := (hclean.2 hevidence).cautious
        rw [((hclean.2 hevidence).continuous hhave).1, hforbid] at hcautious
        exact forbid_of_le hcautious
      · rw [Bool.and_eq_true] at hnow
        unfold forcesForbid at hnow
        rw [Bool.and_eq_true, decide_eq_true_eq] at hnow
        exact hnow.2.1

end Walk

section Witness

variable {floatText : ℚ → Str} {t : VerdictTranscript}
variable (h : (deriveMonotonicityWitness floatText t).holds = true)
include h

theorem holds_clean : (Walk.start.run floatText t.stages).violations = [] ∧
    ((Walk.start.run floatText t.stages).haveRunning = true →
      (Walk.start.run floatText t.stages).runningVerdict = t.finalVerdict ∧
        Near (Walk.start.run floatText t.stages).runningRisk t.finalRiskScore) ∧
    (t.structuralFloorFired = true → (Walk.start.run floatText t.stages).forcedForbid = true) := by
  have hnil : (Walk.start.run floatText t.stages).violations ++
      finalViolations floatText t (Walk.start.run floatText t.stages) = [] := List.isEmpty_iff.mp h
  unfold finalViolations at hnil
  simp only [List.append_eq_nil_iff, ite_singleton_eq_nil] at hnil
  obtain ⟨hwalk, hend, hfloor⟩ := hnil
  refine ⟨hwalk, ?_, ?_⟩
  · intro hhave
    by_contra hno
    apply hend
    refine ⟨hhave, ?_⟩
    by_cases hv : (Walk.start.run floatText t.stages).runningVerdict = t.finalVerdict
    · exact .inr fun hnear => hno ⟨hv, hnear⟩
    · exact .inl hv
  · intro hfired
    by_contra hno
    exact hfloor ⟨hfired, hno⟩

theorem holds_floor_forbids (hfired : t.structuralFloorFired = true) : t.finalVerdict = .forbid := by
  obtain ⟨hclean, hend, hforced⟩ := holds_clean h
  obtain ⟨hhave, hforbid⟩ := run_forced hclean (fun hstart => nomatch hstart) (hforced hfired)
  rw [← (hend hhave).1]
  exact hforbid

theorem holds_threads (hstarts : StartsAtPrior t) :
    Threads .permit 0 (transforming t) ∧
      (endState .permit 0 (transforming t)).1 = t.finalVerdict ∧
      Near (endState .permit 0 (transforming t)).2 t.finalRiskScore := by
  obtain ⟨hclean, hend, -⟩ := holds_clean h
  have hrun := run_start hclean rfl
  unfold StartsAtPrior at hstarts
  unfold transforming at *
  cases hstages : transformingOf t.stages with
  | nil =>
    rw [hstages] at hstarts
    exact ⟨trivial, hstarts.1.symm, hstarts.2⟩
  | cons s rest =>
    rw [hstages] at hstarts hrun
    obtain ⟨hcautious, hthreads, hhave, hstate⟩ := hrun
    obtain ⟨hverdict, hnear⟩ := hend hhave
    refine ⟨⟨hstarts.1, hstarts.2, hcautious, hthreads⟩, ?_, ?_⟩
    · rw [← hverdict]
      exact (congrArg Prod.fst hstate).symm
    · have hrisk : (endState .permit 0 (s :: rest)).2 =
          (Walk.start.run floatText t.stages).runningRisk.val := (congrArg Prod.snd hstate).symm
      rw [hrisk]
      exact hnear

end Witness

/-- Of a transcript whose witness holds, exactly the anchored ones are
certified. -/
theorem holding_witness_certifies_iff (floatText : ℚ → Str) (t : VerdictTranscript)
    (h : (deriveMonotonicityWitness floatText t).holds = true) : Certified t ↔ Anchored t := by
  constructor
  · intro hcertified
    refine ⟨?_, ?_, ?_⟩
    · have hthreads := hcertified.threads
      have hverdict := hcertified.ends_verdict
      have hrisk := hcertified.ends_risk
      unfold StartsAtPrior
      cases hstages : transforming t with
      | nil =>
        rw [hstages] at hverdict hrisk
        exact ⟨hverdict.symm, hrisk⟩
      | cons s rest =>
        rw [hstages] at hthreads
        exact ⟨hthreads.1, hthreads.2.1⟩
    · intro hhard _
      exact (hcertified.forbids (.inr hhard)).1
    · intro hflag
      exact (near_one_iff _).mp (hcertified.forbids hflag).2
  · intro hanchored
    obtain ⟨hthreads, hverdict, hrisk⟩ := holds_threads h hanchored.starts
    refine ⟨hthreads, hverdict, hrisk, ?_⟩
    intro hflag
    refine ⟨?_, (near_one_iff _).mpr (hanchored.full_risk hflag)⟩
    cases hfired : t.structuralFloorFired with
    | true => exact holds_floor_forbids h hfired
    | false =>
      rcases hflag with hfloor | hhard
      · rw [hfired] at hfloor
        cases hfloor
      · exact hanchored.hard_forbid hhard hfired

def floorTranscript : VerdictTranscript :=
  ⟨.forbid, 1, true, true,
    [⟨0, txt "pipeline_entry", txt "pipeline_entry", .permit, .permit, 0, 0, .held, false, none⟩,
      ⟨1, floorStage, txt "structural_floor", .permit, .forbid, 0, 1, .towardCaution, true, none⟩]⟩

theorem holding_witness_certifies_floor :
    (deriveMonotonicityWitness fixed3 floorTranscript).holds = true ∧ Certified floorTranscript := by
  have hholds : (deriveMonotonicityWitness fixed3 floorTranscript).holds = true := by
    with_unfolding_all decide
  refine ⟨hholds, (holding_witness_certifies_iff fixed3 floorTranscript hholds).mpr ⟨?_, ?_, ?_⟩⟩
  · exact ⟨rfl, by with_unfolding_all decide⟩
  · exact fun _ _ => rfl
  · exact fun _ => by with_unfolding_all decide

def emptyTranscript : VerdictTranscript :=
  ⟨.abstain, clampUnit (1 / 2), false, true, []⟩

theorem empty_transcript_not_certified :
    (∀ floatText, (deriveMonotonicityWitness floatText emptyTranscript).holds = true) ∧
      ¬ Certified emptyTranscript := by
  refine ⟨fun _ => rfl, ?_⟩
  intro hcertified
  have hforbid := (hcertified.forbids (.inr rfl)).1
  cases hforbid

end TexGovernance.Engine
