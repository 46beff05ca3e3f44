import TexGovernance.Learning.AllOrNothing
import TexGovernance.Learning.DriftBound

/-!
# Runs of the loop

Calls of the loop come between calls that others make of its stores. A call is all or nothing
in every state of a run exactly where it finds the stores and the gates ready.
-/

namespace TexGovernance.Learning
open PyStr CaseFold Actions Domain Stores Selfgov Runs
open Engine (Uuid)

inductive LoopOp (fold : CaseFolding) where
  | propose (call : ProposeCall)
  | apply (call : ApplyCall)
  | reject (id : Uuid) (rejecter reason : Str) (now : ℤ) (write : WriteOutcome)
  | rollback (id : Uuid) (rolledBackBy : Str) (now : ℤ) (write : WriteOutcome)
  | policies (call : PolicyCall fold)
  | proposals (op : ProposalOp)

section Runs

variable {fold : CaseFolding} (loop : FeedbackLoopOrchestrator) (validates : CalibrationProposal → Bool)

def performOp (w : World (LoopStores fold)) : LoopOp fold → World (LoopStores fold)
  | .propose call => after (propose loop call) w
  | .apply call => after (applyProposal loop call) w
  | .reject id rejecter reason now write => after (rejectProposal id rejecter reason now write) w
  | .rollback id rolledBackBy now write => after (rollbackProposal loop id rolledBackBy now write) w
  | .policies call =>
      putPolicies w (performPolicy loop.sameJson loop.draws loop.py loop.binding ⟨w.store.policies, w.log⟩ call)
  | .proposals op => putProposals w (op.apply validates w.store.proposals)

def runOps (start : World (LoopStores fold)) (ops : List (LoopOp fold)) : World (LoopStores fold) :=
  ops.foldl (performOp loop validates) start

/-- An application or a rollback writes nothing or all, and its gate denies what a gate behind
it would deny. -/
def Atomic (w : World (LoopStores fold)) : LoopOp fold → Prop
  | .apply call => AllOrNothing (applyProposal loop call) (AppliedTo call.proposalId) w ∧ OuterCautious loop w call
  | .reject id rejecter reason now write =>
      AllOrNothing (rejectProposal id rejecter reason now write) (fun _ t => RejectedTo id t) w
  | .rollback id rolledBackBy now write =>
      AllOrNothing (rollbackProposal loop id rolledBackBy now write) (RolledBackTo id) w ∧ RollbackCautious loop w id
  | .propose _ | .policies _ | .proposals _ => True

/-- What an application and a rollback have to find. -/
def Ready (w : World (LoopStores fold)) : LoopOp fold → Prop
  | .apply call => ApplicationReady loop w call
  | .rollback id rolledBackBy _ _ => RollbackReady loop w id rolledBackBy
  | .reject .. | .propose _ | .policies _ | .proposals _ => True

theorem atomic_iff (w : World (LoopStores fold)) (op : LoopOp fold) : Atomic loop w op ↔ Ready loop w op := by
  cases op with
  | propose call => rfl
  | apply call => exact application_ready_iff
  | reject id rejecter reason now write => exact iff_of_true (reject_allOrNothing rejecter reason) trivial
  | rollback id rolledBackBy now write => exact rollback_ready_iff
  | policies call => rfl
  | proposals op => rfl

/-- Every call of a run is all or nothing if and only if every call finds what it has to. -/
theorem run_atomic_iff_ready (start : World (LoopStores fold)) (ops : List (LoopOp fold)) :
    AtEach (fun before op => Atomic loop (runOps loop validates start before) op) ops ↔
      AtEach (fun before op => Ready loop (runOps loop validates start before) op) ops := by
  constructor
  · intro h
    exact h.mono fun before op hatomic => (atomic_iff loop _ op).mp hatomic
  · intro h
    exact h.mono fun before op hready => (atomic_iff loop _ op).mpr hready

end Runs

def raisedWith {fold : CaseFolding} {α : Type} (x : LoopAct fold α) (w : World (LoopStores fold)) :
    Option (LoopStores fold) :=
  match x w with
  | .ok _ _ => none
  | .error _ t => some t.store

theorem AllOrNothing.raised {fold : CaseFolding} {α : Type} {x : LoopAct fold α}
    {Done : LoopStores fold → LoopStores fold → Prop} {w : World (LoopStores fold)} {t : LoopStores fold}
    (h : AllOrNothing x Done w) (hraised : raisedWith x w = some t) : SameView w.store t := by
  unfold AllOrNothing at h
  unfold raisedWith at hraised
  split at h
  · next hrun =>
    rw [hrun] at hraised
    cases hraised
  · next hrun =>
    rw [hrun] at hraised
    cases hraised
    exact h

def emptyStart : World (LoopStores foldedTexts) := freshLoop .fresh true ⟨0, []⟩

/-- The source version of a draft is deleted. -/
def deletedSource : List (LoopOp foldedTexts) :=
  [.policies (.save basePolicy), .propose (draftCall firstDraft (txt "v2") 0), .policies (.delete (txt "v1"))]

def firstApplied : List (LoopOp foldedTexts) :=
  [.policies (.save basePolicy), .propose (draftCall firstDraft (txt "v2") 0), .apply (applyCall firstDraft 1)]

def statusIn (s : LoopStores foldedTexts) (id : Uuid) : Option ProposalStatus :=
  (s.proposals.get id).map CalibrationProposal.status

def activeIn (s : LoopStores foldedTexts) : Option Str := s.policies.getActive.map fun policy => policy.version.text

set_option maxRecDepth 10000 in
/-- The application of a draft without its source version raises behind the approval, and the
proposal stays approved. A rollback with a blank actor raises behind the activation. -/
theorem writes_stay :
    ¬ AtEach (fun before op => Atomic sampleLoop (runOps sampleLoop (fun _ => true) emptyStart before) op)
        (deletedSource ++ [.apply (applyCall firstDraft 1)]) ∧
      ¬ AtEach (fun before op => Atomic sampleLoop (runOps sampleLoop (fun _ => true) emptyStart before) op)
        (firstApplied ++ [.rollback firstDraft (txt " ") 2 .written]) := by
  constructor
  · intro h
    obtain ⟨hall, -⟩ := (atEach_concat.mp h).2
    have hbefore : statusIn (runOps sampleLoop (fun _ => true) emptyStart deletedSource).store firstDraft =
        some .pending := by
      with_unfolding_all decide
    have hafter : (raisedWith (applyProposal sampleLoop (applyCall firstDraft 1))
        (runOps sampleLoop (fun _ => true) emptyStart deletedSource)).map (statusIn · firstDraft) =
          some (some .approved) := by
      with_unfolding_all decide
    obtain ⟨t, hraised, hstatus⟩ := Option.map_eq_some_iff.mp hafter
    have hsame := (hall.raised hraised).proposals firstDraft
    unfold statusIn at hbefore hstatus
    rw [hsame, hbefore] at hstatus
    cases hstatus
  · intro h
    obtain ⟨hall, -⟩ := (atEach_concat.mp h).2
    have hbefore : activeIn (runOps sampleLoop (fun _ => true) emptyStart firstApplied).store = some (txt "v2") := by
      with_unfolding_all decide
    have hafter : (raisedWith (rollbackProposal sampleLoop firstDraft (txt " ") 2 .written)
        (runOps sampleLoop (fun _ => true) emptyStart firstApplied)).map activeIn = some (some (txt "v1")) := by
      with_unfolding_all decide
    obtain ⟨t, hraised, hactive⟩ := Option.map_eq_some_iff.mp hafter
    have hsame := (hall.raised hraised).active
    unfold activeIn at hbefore hactive
    rw [hsame, hbefore] at hactive
    revert hactive
    decide

end TexGovernance.Learning
