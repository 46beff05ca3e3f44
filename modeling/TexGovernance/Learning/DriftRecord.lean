import TexGovernance.Learning.LoopSteps
import TexGovernance.Lib.Runs

/-!
# Runs of the feedback loop and the record of its guard

Calls of `propose` and `apply_proposal` in any order, the applications that they make, and
what the guard has recorded of them.
-/

namespace TexGovernance.Learning
open PyStr PyRepr PyDict PyJson PyFloat CaseFold Actions Domain Stores Selfgov Runs
open Engine (Uuid)

inductive LoopCall where
  | propose (call : ProposeCall)
  | apply (call : ApplyCall)

def LoopCall.now : LoopCall → ℤ
  | .propose call => call.now
  | .apply call => call.now

structure Application where
  instant : ℤ
  policyId : Str
  source : Thresholds
  recommendation : CalibrationRecommendation

/-- The change that an application makes to a threshold of its source policy. -/
def Application.moved (a : Application) (axis : Axis) : ℚ := (recommended a.recommendation).on axis - a.source.on axis

def Application.recorded (a : Application) : Movement := ⟨a.instant, deltas a.recommendation⟩

section Runs

variable (loop : FeedbackLoopOrchestrator) {fold : CaseFolding}

def performCall (w : World (LoopStores fold)) : LoopCall → World (LoopStores fold)
  | .propose call => after (propose loop call) w
  | .apply call => after (applyProposal loop call) w

def applicationOf (w : World (LoopStores fold)) : LoopCall → Option Application
  | .propose _ => none
  | .apply call =>
    match w.store.proposals.get call.proposalId, applyProposal loop call w with
    | some proposal, .ok result _ =>
      if proposal.status = .pending ∧ result.status = .applied then
        (w.store.policies.get proposal.sourcePolicyVersion.text).map fun source =>
          ⟨call.now, source.policyId.text, thresholds source, proposal.recommendation⟩
      else none
    | _, _ => none

def runLoopCalls (start : World (LoopStores fold)) (calls : List LoopCall) : World (LoopStores fold) :=
  calls.foldl (performCall loop) start

def applications (start : World (LoopStores fold)) (calls : List LoopCall) : List Application :=
  emitted (performCall loop) (applicationOf loop) start calls

/-- The stores of a new loop on some policies. -/
def freshLoop (policies : PolicyStore fold) (disabled : Bool) (log : GateLog) : World (LoopStores fold) :=
  ⟨⟨policies, .fresh disabled, .empty⟩, log⟩

end Runs

def applicationsFor (policyId : Str) (apps : List Application) : List Application :=
  apps.filter fun a => a.policyId = policyId

section Steps

variable {loop : FeedbackLoopOrchestrator} {fold : CaseFolding} {w start : World (LoopStores fold)}
variable {calls : List LoopCall}

theorem applications_concat (call : LoopCall) : applications loop start (calls ++ [call]) =
    applications loop start calls ++ (applicationOf loop (runLoopCalls loop start calls) call).toList :=
  emitted_concat _ _ start calls call

theorem runLoopCalls_concat (call : LoopCall) :
    runLoopCalls loop start (calls ++ [call]) = performCall loop (runLoopCalls loop start calls) call := by
  unfold runLoopCalls
  rw [List.foldl_append]
  rfl

theorem histories_apply (call : ApplyCall) :
    (∃ a, applicationOf loop w (.apply call) = some a ∧ a.instant = call.now ∧
      (performCall loop w (.apply call)).store.histories =
        commit call.now a.policyId a.recommendation w.store.histories) ∨
    applicationOf loop w (.apply call) = none ∧
      (performCall loop w (.apply call)).store.histories = w.store.histories := by
  have hmeets := @applyProposal_meets loop fold w call
  simp only [performCall, applicationOf]
  cases hrun : applyProposal loop call w with
  | error e t =>
    rw [after_of_error hrun]
    refine .inr ⟨?_, hmeets.of_error hrun⟩
    cases w.store.proposals.get call.proposalId <;> rfl
  | ok result t =>
    rw [after_of_ok hrun]
    obtain ⟨hsame, hget⟩ | ⟨proposal, hget, hpending, happlied, source, hsource, hcommit⟩ := hmeets.of_ok hrun
    · rw [hget]
      refine .inr ⟨if_neg ?_, hsame⟩
      rintro ⟨hpending, happlied⟩
      rw [hpending] at happlied
      cases happlied
    · rw [hget]
      simp only [hpending, happlied, hsource, and_self, if_true, Option.map_some]
      exact .inl ⟨_, rfl, rfl, hcommit⟩

theorem histories_propose (call : ProposeCall) :
    Prunes loop.safety call.now w.store.histories (performCall loop w (.propose call)).store.histories := by
  have hmeets := @propose_meets loop fold w call
  cases hrun : propose loop call w with
  | ok drafted t =>
    change Prunes _ _ _ (after (propose loop call) w).store.histories
    rw [after_of_ok hrun]
    exact (hmeets.of_ok hrun).histories
  | error e t =>
    change Prunes _ _ _ (after (propose loop call) w).store.histories
    rw [after_of_error hrun]
    exact hmeets.of_error hrun

/-- The instants of a run do not go back. -/
def Clocked (calls : List LoopCall) : Prop := calls.Pairwise fun a b => a.now ≤ b.now

structure Recorded (g : CalibrationSafetyGuard) (calls : List LoopCall) (apps : List Application)
    (histories : Histories) : Prop where
  events : ∀ policyId now, (∀ call ∈ calls, call.now ≤ now) →
    (pruned g now (historyOf histories policyId)).events =
      ((applicationsFor policyId apps).map Application.recorded).filter fun event =>
        event.instant ≥ now - g.cumulativeWindow
  last : ∀ policyId, (historyOf histories policyId).lastCalibratedAt =
    (applicationsFor policyId apps).getLast?.map Application.instant

theorem historyOf_set (histories : Histories) (policyId k : Str) (history : PolicyMovementHistory) :
    historyOf (histories.set policyId history) k = if k = policyId then history else historyOf histories k := by
  unfold historyOf
  rw [Dict.get?_set]
  split
  · rfl
  · rfl

theorem pruned_pruned {g : CalibrationSafetyGuard} {now later : ℤ} (h : now ≤ later)
    (history : PolicyMovementHistory) : pruned g later (pruned g now history) = pruned g later history := by
  unfold pruned
  rw [PolicyMovementHistory.mk.injEq]
  refine ⟨?_, rfl⟩
  rw [List.filter_filter]
  refine List.filter_congr fun event _ => ?_
  rw [Bool.and_eq_left_iff_imp]
  intro hlater
  have hinstant := of_decide_eq_true hlater
  exact decide_eq_true (by omega)

theorem Recorded.prunes {g : CalibrationSafetyGuard} {apps : List Application} {histories histories' : Histories}
    (call : LoopCall) (h : Recorded g calls apps histories) (hprunes : Prunes g call.now histories histories') :
    Recorded g (calls ++ [call]) apps histories' := by
  have hkept (k : Str) : (∀ now, call.now ≤ now →
      (pruned g now (historyOf histories' k)).events = (pruned g now (historyOf histories k)).events) ∧
      (historyOf histories' k).lastCalibratedAt = (historyOf histories k).lastCalibratedAt := by
    obtain rfl | ⟨policyId, rfl⟩ := hprunes
    · exact ⟨fun _ _ => rfl, rfl⟩
    · rw [historyOf_set]
      split
      · next hk =>
        rw [hk]
        exact ⟨fun now hnow => by rw [pruned_pruned hnow], rfl⟩
      · exact ⟨fun _ _ => rfl, rfl⟩
  constructor
  · intro k now hnow
    rw [(hkept k).1 now (hnow call (List.mem_append_right _ (List.mem_singleton_self call)))]
    exact h.events k now fun earlier hmem => hnow earlier (List.mem_append_left _ hmem)
  · intro k
    rw [(hkept k).2]
    exact h.last k

theorem Recorded.committed {g : CalibrationSafetyGuard} {apps : List Application} {histories : Histories}
    {a : Application} (call : LoopCall) (h : Recorded g calls apps histories) (hinstant : a.instant = call.now) :
    Recorded g (calls ++ [call]) (apps ++ [a]) (commit call.now a.policyId a.recommendation histories) := by
  have hbefore {now : ℤ} (hnow : ∀ earlier ∈ calls ++ [call], earlier.now ≤ now) :
      ∀ earlier ∈ calls, earlier.now ≤ now := fun earlier hmem => hnow earlier (List.mem_append_left _ hmem)
  unfold commit
  constructor
  · intro k now hnow
    have hold := h.events k now (hbefore hnow)
    rw [historyOf_set]
    unfold applicationsFor at hold ⊢
    by_cases hk : k = a.policyId
    · subst hk
      rw [if_pos rfl, List.filter_append, List.map_append, List.filter_append, ← hold]
      unfold pruned
      simp only [List.filter_append, decide_true, List.filter_cons, if_true, List.filter_nil, List.map_cons,
        List.map_nil]
      rw [← hinstant]
      rfl
    · rw [if_neg hk, List.filter_append, hold]
      simp [Ne.symm hk]
  · intro k
    have hold := h.last k
    rw [historyOf_set]
    unfold applicationsFor at hold ⊢
    by_cases hk : k = a.policyId
    · subst hk
      rw [if_pos rfl, List.filter_append]
      simp [hinstant]
    · rw [if_neg hk, List.filter_append, hold]
      simp [Ne.symm hk]

theorem recorded (policies : PolicyStore fold) (disabled : Bool) (log : GateLog) (calls : List LoopCall) :
    Recorded loop.safety calls (applications loop (freshLoop policies disabled log) calls)
      (runLoopCalls loop (freshLoop policies disabled log) calls).store.histories := by
  induction calls using List.reverseRecOn with
  | nil =>
    constructor
    · intro policyId now _
      rfl
    · intro policyId
      rfl
  | append_singleton calls call ih =>
    rw [applications_concat, runLoopCalls_concat]
    cases call with
    | propose call =>
      have hnone : applicationOf loop (runLoopCalls loop (freshLoop policies disabled log) calls) (.propose call) =
        none := rfl
      rw [hnone, Option.toList_none, List.append_nil]
      exact ih.prunes (.propose call) (histories_propose call)
    | apply call =>
      obtain ⟨a, hsome, hinstant, hcommit⟩ | ⟨hnone, hsame⟩ := histories_apply call
      · rw [hsome, hcommit]
        exact ih.committed (.apply call) hinstant
      · rw [hnone, hsame, Option.toList_none, List.append_nil]
        exact ih.prunes (.apply call) (.inl rfl)

end Steps

end TexGovernance.Learning
