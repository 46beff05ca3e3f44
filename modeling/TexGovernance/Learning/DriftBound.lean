import TexGovernance.Learning.DriftRecord
import TexGovernance.Stores.ActivePolicy

/-!
# The drift of a policy

The guard checks the interval and the budget when a proposal is drafted, and the movement is
recorded when it is applied.
-/

namespace TexGovernance.Learning
open PyStr PyRepr PyDict PyJson PyFloat CaseFold Actions Domain Stores Selfgov Runs
open Engine (Uuid)

def inWindow (g : CalibrationSafetyGuard) (policyId : Str) (opening : ℤ) (apps : List Application) :
    List Application :=
  (applicationsFor policyId apps).filter fun a => opening ≤ a.instant ∧ a.instant ≤ opening + g.cumulativeWindow

structure DriftBounded (g : CalibrationSafetyGuard) (apps : List Application) : Prop where
  budget : ∀ policyId opening axis, ((inWindow g policyId opening apps).map fun a => |a.moved axis|).sum ≤
    g.cumulativeBudget + (inWindow g policyId opening apps).length * (1 / 10000)
  apart : apps.Pairwise fun a b => a.policyId = b.policyId → a.instant + g.minInterval ≤ b.instant

structure Timely (loop : FeedbackLoopOrchestrator) {fold : CaseFolding} (start : World (LoopStores fold))
    (before : List LoopCall) (call : ApplyCall) (a : Application) : Prop where
  drafted : ∃ early draft middle source proposal t, before = early ++ .propose draft :: middle ∧
    resolveSourcePolicy draft.sourcePolicyVersion (runLoopCalls loop start early) =
      .ok source (runLoopCalls loop start early) ∧
    propose loop draft (runLoopCalls loop start early) = .ok (some proposal) t ∧
    (runLoopCalls loop start before).store.proposals.get call.proposalId = some proposal ∧
    applicationsFor a.policyId (applications loop start early) =
      applicationsFor a.policyId (applications loop start before) ∧
    (a.policyId = source.policyId.text ∧ a.source = thresholds source) ∧
    ∀ axis, |(settled loop.safety (loop.calibrator.recommend source draft.summary)).on axis -
        (thresholds source).on axis| ≤
      |clippedDelta loop.safety (loop.calibrator.recommend source draft.summary) axis|

def AllTimely (loop : FeedbackLoopOrchestrator) {fold : CaseFolding} (start : World (LoopStores fold)) :
    List LoopCall → Prop :=
  AtEach fun before call => ∀ apply a, call = .apply apply →
    applicationOf loop (runLoopCalls loop start before) call = some a → Timely loop start before apply a

section Steps

variable {loop : FeedbackLoopOrchestrator} {fold : CaseFolding} {w start : World (LoopStores fold)}
variable {calls : List LoopCall}

theorem applicationOf_instant {call : LoopCall} {a : Application} (h : applicationOf loop w call = some a) :
    a.instant = call.now := by
  cases call with
  | propose call => cases h
  | apply call =>
    obtain ⟨b, hsome, hinstant, -⟩ | ⟨hnone, -⟩ := @histories_apply loop fold w call
    · rw [hsome] at h
      rw [← Option.some.inj h]
      exact hinstant
    · rw [hnone] at h
      cases h

theorem instant_mem {a : Application} (h : a ∈ applications loop start calls) :
    ∃ call ∈ calls, a.instant = call.now := by
  induction calls using List.reverseRecOn with
  | nil => cases h
  | append_singleton calls call ih =>
    rw [applications_concat, List.mem_append] at h
    cases h with
    | inl hbefore =>
      obtain ⟨earlier, hmem, hinstant⟩ := ih hbefore
      exact ⟨earlier, List.mem_append_left _ hmem, hinstant⟩
    | inr hlast =>
      exact ⟨call, List.mem_append_right _ (List.mem_singleton_self call),
        applicationOf_instant (Option.mem_toList.mp hlast)⟩

def recordedSince (opening : ℤ) (axis : Axis) (apps : List Application) : ℚ :=
  ((apps.filter fun a => a.instant ≥ opening).map fun a => |a.recorded.moved.on axis|).sum

structure Sound (g : CalibrationSafetyGuard) (apps : List Application) (a : Application) : Prop where
  spaced : ∀ b ∈ (applicationsFor a.policyId apps).getLast?, b.instant + g.minInterval ≤ a.instant
  afforded : ∀ axis, recordedSince (a.instant - g.cumulativeWindow) axis (applicationsFor a.policyId apps) +
    |a.moved axis| ≤ g.cumulativeBudget + 1 / 20000
  rounded : ∀ axis, |a.moved axis - a.recorded.moved.on axis| ≤ 1 / 10000

theorem sum_filter_le {p q : Application → Bool} (h : ∀ a, p a = true → q a = true) (size : Application → ℚ)
    (apps : List Application) :
    ((apps.filter p).map fun a => |size a|).sum ≤ ((apps.filter q).map fun a => |size a|).sum := by
  refine ((List.monotone_filter_right apps h).map _).sum_le_sum fun x hx => ?_
  obtain ⟨a, -, rfl⟩ := List.mem_map.mp hx
  exact abs_nonneg _

theorem recordedSince_anti {opening later : ℤ} (h : opening ≤ later) (axis : Axis) (apps : List Application) :
    recordedSince later axis apps ≤ recordedSince opening axis apps := by
  refine sum_filter_le (fun a ha => ?_) _ apps
  have hlater := of_decide_eq_true ha
  exact decide_eq_true (by omega)

theorem moved_le (a : Application) (axis : Axis) (h : |a.moved axis - a.recorded.moved.on axis| ≤ 1 / 10000) :
    |a.moved axis| ≤ |a.recorded.moved.on axis| + 1 / 10000 := by
  have htriangle := abs_sub_abs_le_abs_sub (a.moved axis) (a.recorded.moved.on axis)
  linarith

theorem sum_moved_le {axis : Axis} {apps : List Application}
    (hrounded : ∀ b ∈ apps, |b.moved axis - b.recorded.moved.on axis| ≤ 1 / 10000) :
    (apps.map fun b => |b.moved axis|).sum ≤
      (apps.map fun b => |b.recorded.moved.on axis|).sum + apps.length * (1 / 10000) := by
  induction apps with
  | nil => simp
  | cons b apps ih =>
    have hrest := ih fun c hc => hrounded c (List.mem_cons_of_mem _ hc)
    have hfirst := moved_le b axis (hrounded b List.mem_cons_self)
    simp only [List.map_cons, List.sum_cons, List.length_cons, Nat.cast_add, Nat.cast_one]
    linarith

theorem getLast_of_sorted {apps : List Application} (hsorted : apps.Pairwise fun b c => b.instant ≤ c.instant)
    {b : Application} (hmem : b ∈ apps) : ∃ last, apps.getLast? = some last ∧ b.instant ≤ last.instant := by
  induction apps using List.reverseRecOn with
  | nil => cases hmem
  | append_singleton apps last _ =>
    refine ⟨last, List.getLast?_concat, ?_⟩
    obtain hbefore | hlast := List.mem_append.mp hmem
    · exact (List.pairwise_append.mp hsorted).2.2 b hbefore last (List.mem_singleton_self last)
    · rw [List.mem_singleton.mp hlast]

theorem DriftBounded.concat {g : CalibrationSafetyGuard} {apps : List Application} {a : Application}
    (h : DriftBounded g apps)
    (hrounded : ∀ b ∈ apps, ∀ axis, |b.moved axis - b.recorded.moved.on axis| ≤ 1 / 10000)
    (hsorted : apps.Pairwise fun b c => b.instant ≤ c.instant) (hsound : Sound g apps a) :
    DriftBounded g (apps ++ [a]) := by
  constructor
  · intro policyId opening axis
    have hbefore := h.budget policyId opening axis
    unfold inWindow applicationsFor at hbefore ⊢
    rw [List.filter_append, List.filter_append]
    by_cases hin : a.policyId = policyId ∧ opening ≤ a.instant ∧ a.instant ≤ opening + g.cumulativeWindow
    · obtain ⟨hpolicy, hopening, hclosing⟩ := hin
      have hmoved := @sum_moved_le axis ((apps.filter fun b => b.policyId = policyId).filter fun b =>
          opening ≤ b.instant ∧ b.instant ≤ opening + g.cumulativeWindow) fun b hb =>
        hrounded b (List.mem_of_mem_filter (List.mem_of_mem_filter hb)) axis
      have hafforded := hsound.afforded axis
      have hsince : (((apps.filter fun b => b.policyId = policyId).filter fun b =>
          opening ≤ b.instant ∧ b.instant ≤ opening + g.cumulativeWindow).map fun b =>
            |b.recorded.moved.on axis|).sum ≤
          recordedSince (a.instant - g.cumulativeWindow) axis (applicationsFor a.policyId apps) := by
        rw [hpolicy]
        refine sum_filter_le (fun b hb => ?_) _ _
        have hwindow := of_decide_eq_true hb
        exact decide_eq_true (by omega)
      have hlast : ([a].filter fun b => b.policyId = policyId).filter (fun b =>
          opening ≤ b.instant ∧ b.instant ≤ opening + g.cumulativeWindow) = [a] := by
        simp [hpolicy, hopening, hclosing]
      rw [hlast, List.map_append, List.sum_append, List.length_append]
      push_cast
      simp only [List.map_cons, List.map_nil, List.sum_cons, List.sum_nil, List.length_cons, List.length_nil,
        add_zero, zero_add]
      push_cast
      linarith
    · have hnone : ([a].filter fun b => b.policyId = policyId).filter (fun b =>
          opening ≤ b.instant ∧ b.instant ≤ opening + g.cumulativeWindow) = [] := by
        simp only [List.filter_filter, List.filter_eq_nil_iff, List.mem_singleton]
        rintro b rfl hboth
        simp only [Bool.and_eq_true, decide_eq_true_eq] at hboth
        exact hin ⟨hboth.2, hboth.1⟩
      rw [hnone, List.append_nil]
      exact hbefore
  · refine List.pairwise_append.mpr ⟨h.apart, List.pairwise_singleton _ _, ?_⟩
    intro b hb c hc hpolicy
    rw [List.mem_singleton] at hc
    subst hc
    have hmine : b ∈ applicationsFor c.policyId apps := List.mem_filter.mpr ⟨hb, decide_eq_true hpolicy⟩
    obtain ⟨last, hlast, hle⟩ := getLast_of_sorted (hsorted.filter _) hmine
    have hspaced := hsound.spaced last hlast
    omega

theorem recommended_clippedTo (g : CalibrationSafetyGuard) (r : CalibrationRecommendation) (reasons : List Str)
    (axis : Axis) : (recommended (clippedTo g r reasons)).on axis = roundTo 4 ((settled g r).on axis) := by
  cases axis with
  | _ => rfl

theorem deltas_clippedTo (g : CalibrationSafetyGuard) (r : CalibrationRecommendation) (reasons : List Str)
    (axis : Axis) :
    (deltas (clippedTo g r reasons)).on axis = roundTo 4 ((settled g r).on axis - (current r).on axis) := by
  cases axis with
  | _ => rfl

theorem abs_roundTo_four (q : ℚ) : |roundTo 4 q - q| ≤ 1 / 20000 := by
  refine (abs_roundTo_sub_le 4 q).trans (le_of_eq ?_)
  norm_num

theorem applicationOf_stored {call : ApplyCall} {a : Application} {proposal : CalibrationProposal}
    (h : applicationOf loop w (.apply call) = some a) (hget : w.store.proposals.get call.proposalId = some proposal) :
    a.recommendation = proposal.recommendation ∧ a.instant = call.now := by
  simp only [applicationOf, hget] at h
  cases hrun : applyProposal loop call w with
  | error e t =>
    rw [hrun] at h
    cases h
  | ok result t =>
    rw [hrun] at h
    simp only at h
    split at h
    · obtain ⟨source, -, rfl⟩ := Option.map_eq_some_iff.mp h
      exact ⟨rfl, rfl⟩
    · cases h

theorem sumAbs_recorded {g : CalibrationSafetyGuard} {apps : List Application} {histories : Histories} {now : ℤ}
    (h : Recorded g calls apps histories) (hnow : ∀ call ∈ calls, call.now ≤ now) (policyId : Str) (axis : Axis)
    (delta : ℚ) : sumAbs (pruned g now (historyOf histories policyId)) axis delta =
      recordedSince (now - g.cumulativeWindow) axis (applicationsFor policyId apps) + |delta| := by
  unfold sumAbs recordedSince
  rw [h.events policyId now hnow, List.filter_map, List.map_map]
  rfl

theorem Timely.sound {policies : PolicyStore fold} {disabled : Bool} {log : GateLog} {before : List LoopCall}
    {call : ApplyCall} {a : Application} (h : Timely loop (freshLoop policies disabled log) before call a)
    (hclock : Clocked (before ++ [.apply call]))
    (happ : applicationOf loop (runLoopCalls loop (freshLoop policies disabled log) before) (.apply call) = some a) :
    Sound loop.safety (applications loop (freshLoop policies disabled log) before) a := by
  obtain ⟨early, draft, middle, source, proposal, t, hsplit, hresolve, hdraft, hget, hsame, ⟨hpolicy, hsource⟩,
    hunforced⟩ := h.drafted
  obtain ⟨hrecommendation, hinstant⟩ := applicationOf_stored happ hget
  obtain ⟨-, source', hpasses, hresolve'⟩ := (propose_meets.of_ok hdraft).passes proposal rfl
  cases hresolve.symm.trans hresolve'
  have hrecorded := @recorded loop fold policies disabled log early
  rw [hsplit] at hclock
  obtain ⟨hordered, -, hlater⟩ := List.pairwise_append.mp hclock
  have hbefore : ∀ earlier ∈ early, earlier.now ≤ draft.now := fun earlier hmem =>
    (List.pairwise_append.mp hordered).2.2 earlier hmem (.propose draft) List.mem_cons_self
  have hafter : draft.now ≤ a.instant := by
    rw [hinstant]
    exact hlater (.propose draft) (List.mem_append_right _ List.mem_cons_self) _ (List.mem_singleton_self _)
  obtain ⟨reasons, hclipped⟩ := hpasses.clipped
  rw [hclipped] at hrecommendation
  set r := loop.calibrator.recommend source draft.summary with hr
  have hcurrent : a.source = current r := hsource.trans (loop.calibrator.current_recommend source draft.summary).symm
  have hmoved (axis : Axis) : a.moved axis = roundTo 4 ((settled loop.safety r).on axis) - (current r).on axis := by
    unfold Application.moved
    rw [hrecommendation, recommended_clippedTo, hcurrent]
  have hdelta (axis : Axis) : a.recorded.moved.on axis =
      roundTo 4 ((settled loop.safety r).on axis - (current r).on axis) := by
    unfold Application.recorded
    rw [hrecommendation, deltas_clippedTo]
  constructor
  · intro b hb
    rw [← hsame, hpolicy] at hb
    have hlast := hrecorded.last source.policyId.text
    rw [hb] at hlast
    have hspaced := hpasses.spaced
    unfold rateLimited at hspaced
    rw [hlast] at hspaced
    simp only [Option.map_some, Option.any_some, decide_eq_false_iff_not, not_lt] at hspaced
    omega
  · intro axis
    have hafforded := hpasses.afforded
    unfold budgetExhausted at hafforded
    have haxis := (List.any_eq_false.mp hafforded) axis (by cases axis <;> decide)
    rw [sumAbs_recorded hrecorded hbefore] at haxis
    simp only [decide_eq_true_eq, not_lt] at haxis
    have hwindows : draft.now - loop.safety.cumulativeWindow ≤ a.instant - loop.safety.cumulativeWindow := by omega
    have hsince := recordedSince_anti hwindows axis
      (applicationsFor source.policyId.text (applications loop (freshLoop policies disabled log) early))
    have hsize : |a.moved axis| ≤ |clippedDelta loop.safety r axis| + 1 / 20000 := by
      have hround := abs_roundTo_four ((settled loop.safety r).on axis)
      have hsettled := hunforced axis
      rw [← hsource, hcurrent] at hsettled
      have htriangle := abs_add_le (roundTo 4 ((settled loop.safety r).on axis) - (settled loop.safety r).on axis)
        ((settled loop.safety r).on axis - (current r).on axis)
      rw [sub_add_sub_cancel, ← hmoved] at htriangle
      linarith
    rw [← hsame, hpolicy]
    linarith
  · intro axis
    rw [hmoved, hdelta]
    have hfirst := abs_roundTo_four ((settled loop.safety r).on axis)
    have hsecond := abs_roundTo_four ((settled loop.safety r).on axis - (current r).on axis)
    rw [abs_le] at hfirst hsecond ⊢
    constructor
    · linarith [hfirst.1, hsecond.2]
    · linarith [hfirst.2, hsecond.1]

theorem applications_sorted (hclock : Clocked calls) :
    (applications loop start calls).Pairwise fun a b => a.instant ≤ b.instant := by
  induction calls using List.reverseRecOn with
  | nil => exact .nil
  | append_singleton calls call ih =>
    obtain ⟨hbefore, -, hlater⟩ := List.pairwise_append.mp hclock
    rw [applications_concat]
    refine List.pairwise_append.mpr ⟨ih hbefore, ?_, ?_⟩
    · cases applicationOf loop (runLoopCalls loop start calls) call with
      | none => exact .nil
      | some a => exact List.pairwise_singleton _ _
    · intro b hb a ha
      obtain ⟨earlier, hmem, hinstant⟩ := instant_mem hb
      rw [hinstant, applicationOf_instant (Option.mem_toList.mp ha)]
      exact hlater earlier hmem call (List.mem_singleton_self call)

/-- In a run of timely applications the drift of every policy is bounded. -/
theorem drift_bounded_of_timely (loop : FeedbackLoopOrchestrator) (policies : PolicyStore fold) (disabled : Bool)
    (log : GateLog) (calls : List LoopCall) (hclock : Clocked calls)
    (htimely : AllTimely loop (freshLoop policies disabled log) calls) :
    DriftBounded loop.safety (applications loop (freshLoop policies disabled log) calls) := by
  -- with the bounds goes that what was applied was recorded up to rounding
  suffices hboth : DriftBounded loop.safety (applications loop (freshLoop policies disabled log) calls) ∧
      ∀ b ∈ applications loop (freshLoop policies disabled log) calls, ∀ axis,
        |b.moved axis - b.recorded.moved.on axis| ≤ 1 / 10000 from hboth.1
  induction calls using List.reverseRecOn with
  | nil =>
    refine ⟨⟨fun policyId opening axis => ?_, .nil⟩, fun b hb => by cases hb⟩
    have hbudget := loop.safety.cumulativeBudget_mem.1
    change (0 : ℚ) ≤ loop.safety.cumulativeBudget + ((0 : ℕ) : ℚ) * (1 / 10000)
    push_cast
    linarith
  | append_singleton calls call ih =>
    obtain ⟨htimelyBefore, htimelyLast⟩ := atEach_concat.mp htimely
    obtain ⟨hbounded, hrounded⟩ := ih (List.pairwise_append.mp hclock).1 htimelyBefore
    rw [applications_concat]
    cases happ : applicationOf loop (runLoopCalls loop (freshLoop policies disabled log) calls) call with
    | none =>
      rw [Option.toList_none, List.append_nil]
      exact ⟨hbounded, hrounded⟩
    | some a =>
      cases call with
      | propose call => cases happ
      | apply call =>
        have hsound := (htimelyLast call a rfl happ).sound hclock happ
        refine ⟨hbounded.concat hrounded (applications_sorted (List.pairwise_append.mp hclock).1) hsound, ?_⟩
        intro b hb
        obtain hbefore | hlast := List.mem_append.mp hb
        · exact hrounded b hbefore
        · rw [Option.toList_some, List.mem_singleton] at hlast
          rw [hlast]
          exact hsound.rounded

end Steps

def basePolicy : PolicySnapshot foldedTexts :=
  { samplePolicy v1 v1_stripped (34 / 100) with
    forbidThreshold := 72 / 100
    minimumConfidence := 62 / 100 }

def sampleLoop : FeedbackLoopOrchestrator where
  sameJson := sameText
  draws := plainDraws
  py := plainInterpreter
  binding := none
  calibrator := buildDefaultCalibrator
  safety := .default
  float _ := ⟨txt "0.0", zeroText_number⟩

def draftCall (id : Uuid) (version : Str) (now : ℤ) : ProposeCall where
  proposalId := id
  tenantId := txt "acme"
  proposedNewVersion := version
  createdBy := txt "ops"
  sourcePolicyVersion := none
  summary := ⟨50, 10, 0, 0, 0⟩
  held := false
  refused := false
  now
  write := .written

def applyCall (id : Uuid) (now : ℤ) : ApplyCall where
  proposalId := id
  approver := txt "ops"
  approvedAt := now
  approvalWrite := .written
  now
  appliedAt := now
  applicationWrite := .written

theorem firstDraft_uuid : Engine.isUuidText (txt "00000000-0000-4000-8000-000000000001") = true := by
  decide

def firstDraft : Uuid := ⟨txt "00000000-0000-4000-8000-000000000001", firstDraft_uuid⟩
def secondDraft : Uuid := ⟨txt "00000000-0000-4000-8000-000000000002", by decide⟩
def thirdDraft : Uuid := ⟨txt "00000000-0000-4000-8000-000000000003", by decide⟩

def sampleStart : World (LoopStores foldedTexts) := freshLoop (PolicyStore.fresh.put basePolicy) true ⟨0, []⟩

def drafts {ε σ α : Type} : EStateM.Result ε σ (Option α) → Bool
  | .ok (some _) _ => true
  | _ => false

set_option maxRecDepth 4000 in
theorem first_drafted : ∃ p t,
    propose sampleLoop (draftCall firstDraft (txt "v2") 0) sampleStart = .ok (some p) t := by
  have hsome : drafts (propose sampleLoop (draftCall firstDraft (txt "v2") 0) sampleStart) = true := by
    with_unfolding_all decide
  cases hrun : propose sampleLoop (draftCall firstDraft (txt "v2") 0) sampleStart with
  | error e t =>
    rw [hrun] at hsome
    cases hsome
  | ok drafted t =>
    cases drafted with
    | some p => exact ⟨p, t, rfl⟩
    | none =>
      rw [hrun] at hsome
      cases hsome

set_option maxRecDepth 4000 in
theorem allTimely_first : AllTimely sampleLoop sampleStart
    [.propose (draftCall firstDraft (txt "v2") 0), .apply (applyCall firstDraft 1)] := by
  have hquiet : AllTimely sampleLoop sampleStart [.propose (draftCall firstDraft (txt "v2") 0)] :=
    (@atEach_concat _ _ [] _).mpr ⟨atEach_nil, fun apply a hcall => by cases hcall⟩
  refine (@atEach_concat _ _ [_] _).mpr ⟨hquiet, ?_⟩
  intro apply a hcall happ
  cases hcall
  obtain ⟨p, t, hrun⟩ := first_drafted
  obtain ⟨hput, source, hpasses, hresolve⟩ := (propose_meets.of_ok hrun).passes p rfl
  have hsource : source = basePolicy := by
    have hactive : sampleStart.store.policies.getActive = some basePolicy := rfl
    cases (requireActive_eq hactive).symm.trans hresolve
    rfl
  have hstored : (runLoopCalls sampleLoop sampleStart
      [.propose (draftCall firstDraft (txt "v2") 0)]).store.proposals.get firstDraft = some p := by
    change (after (propose sampleLoop (draftCall firstDraft (txt "v2") 0)) sampleStart).store.proposals.get _ = _
    rw [after_of_ok hrun, hput, ProposalStore.get_put]
    exact if_pos hpasses.id.symm
  have hshape : (applicationOf sampleLoop (runLoopCalls sampleLoop sampleStart
      [.propose (draftCall firstDraft (txt "v2") 0)]) (.apply (applyCall firstDraft 1))).map
        (fun a => (a.policyId, a.source)) = some (txt "default", thresholds basePolicy) := by
    with_unfolding_all decide
  rw [happ, Option.map_some, Option.some.injEq, Prod.mk.injEq] at hshape
  refine ⟨[], _, [], source, p, t, rfl, hresolve, hrun, hstored, ?_, ?_, ?_⟩
  · have hempty : applications sampleLoop sampleStart [.propose (draftCall firstDraft (txt "v2") 0)] = [] := rfl
    rw [hempty]
    rfl
  · rw [hsource]
    exact hshape
  · rw [hsource]
    intro axis
    cases axis <;> with_unfolding_all decide

/-- Drafted and applied at once. -/
theorem first_application_bounded : DriftBounded CalibrationSafetyGuard.default (applications sampleLoop sampleStart
    [.propose (draftCall firstDraft (txt "v2") 0), .apply (applyCall firstDraft 1)]) :=
  drift_bounded_of_timely sampleLoop _ _ _ _ (by unfold Clocked; decide) allTimely_first

/-- Three proposals that are drafted before the first of them is applied. -/
def pendingRun : List LoopCall :=
  [.propose (draftCall firstDraft (txt "v2") 0), .propose (draftCall secondDraft (txt "v3") 0),
    .propose (draftCall thirdDraft (txt "v4") 0), .apply (applyCall firstDraft 1), .apply (applyCall secondDraft 2),
    .apply (applyCall thirdDraft 3)]

set_option maxRecDepth 10000 in
/-- They are applied a microsecond apart, and together move the permit threshold by more than
the budget. -/
theorem pending_proposals_drift : Clocked pendingRun ∧
    (applications sampleLoop sampleStart pendingRun).map (fun a => (a.instant, a.policyId, a.moved .permit)) =
      [(1, txt "default", -359 / 10000), (2, txt "default", -359 / 10000), (3, txt "default", -359 / 10000)] ∧
    ¬ DriftBounded CalibrationSafetyGuard.default (applications sampleLoop sampleStart pendingRun) := by
  refine ⟨by unfold Clocked; decide, by with_unfolding_all decide, ?_⟩
  intro h
  have hsum : ((inWindow .default (txt "default") 1 (applications sampleLoop sampleStart pendingRun)).map fun a =>
      |a.moved .permit|).sum = 1077 / 10000 := by
    with_unfolding_all decide
  have hlength : (inWindow .default (txt "default") 1 (applications sampleLoop sampleStart pendingRun)).length = 3 := by
    with_unfolding_all decide
  have hbudget := h.budget (txt "default") 1 .permit
  rw [hsum, hlength] at hbudget
  norm_num [CalibrationSafetyGuard.default] at hbudget

end TexGovernance.Learning
