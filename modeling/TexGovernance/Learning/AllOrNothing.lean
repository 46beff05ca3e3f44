import TexGovernance.Learning.LoopSteps
import TexGovernance.Lib.Runs
import TexGovernance.Stores.ActivePolicy

/-!
# Applying and rolling back

An application and a rollback write to the stores one after the other, and some of the checks
stand between the writes.
-/

namespace TexGovernance.Learning
open PyStr PyRepr PyDict PyJson PyFloat CaseFold Actions Domain Stores Selfgov Runs
open Engine (Uuid)

variable {fold : CaseFolding}

structure SameView (s t : LoopStores fold) : Prop where
  policies : ∀ version, t.policies.get version = s.policies.get version
  active : t.policies.getActive = s.policies.getActive
  proposals : ∀ id, t.proposals.get id = s.proposals.get id
  histories : t.histories = s.histories

theorem SameView.refl (s : LoopStores fold) : SameView s s := ⟨fun _ => rfl, rfl, fun _ => rfl, rfl⟩

structure CalibratedFrom (source : PolicySnapshot fold) (proposal : CalibrationProposal)
    (active : PolicySnapshot fold) : Prop where
  family : active.policyId = source.policyId
  version : active.version.text = strip proposal.proposedNewVersion.text
  flag : active.isActive = true
  thresholds_eq : thresholds active = recommended proposal.recommendation
  severities : active.deterministicBlockSeverities = source.deterministicBlockSeverities
  recognizers : active.enabledRecognizers = source.enabledRecognizers
  terms : active.blockedTerms = source.blockedTerms
  entities : active.sensitiveEntities = source.sensitiveEntities
  settings : ∀ key, key ≠ txt "metadata" → active.settings.lookup key = source.settings.lookup key

def AppliedTo (id : Uuid) (s t : LoopStores fold) : Prop :=
  ∃ proposal source applied active, s.proposals.get id = some proposal ∧
    s.policies.get proposal.sourcePolicyVersion.text = some source ∧
    t.proposals.get id = some applied ∧ applied.status = .applied ∧
    t.policies.getActive = some active ∧ CalibratedFrom source proposal active

def RejectedTo (id : Uuid) (t : LoopStores fold) : Prop :=
  ∃ rejected, t.proposals.get id = some rejected ∧ rejected.status = .rejected

def RolledBackTo (id : Uuid) (s t : LoopStores fold) : Prop :=
  ∃ proposal target policy rolled, s.proposals.get id = some proposal ∧
    proposal.rollbackTargetVersion = some target ∧ s.policies.get target = some policy ∧
    t.proposals.get id = some rolled ∧ rolled.status = .rolledBack ∧
    t.policies.getActive = some { policy with isActive := true }

def AllOrNothing {α : Type} (x : LoopAct fold α) (Done : LoopStores fold → LoopStores fold → Prop)
    (w : World (LoopStores fold)) : Prop :=
  match x w with
  | .ok _ t => SameView w.store t.store ∨ Done w.store t.store
  | .error _ t => SameView w.store t.store

section Calls

variable (loop : FeedbackLoopOrchestrator)

def outerGate (id : Uuid) : LoopAct fold Bool := gated loop.draws loop.py loop.binding (describeApply loop id)

def saveGate (policy : PolicySnapshot fold) : EStateM PyErr (World (PolicyStore fold)) Bool :=
  gated loop.draws loop.py loop.binding fun store => describePolicySave loop.sameJson store policy

def activateGate (version : Str) : EStateM PyErr (World (PolicyStore fold)) Bool :=
  gated loop.draws loop.py loop.binding fun store => .ok (describePolicyActivate store version)

def rollbackGate (proposal : CalibrationProposal) (target : Str) : LoopAct fold Bool :=
  gated loop.draws loop.py loop.binding fun stores => .ok (describeProposalRollback proposal target stores.policies)

/-- A call of `apply_proposal` that its gate lets through and that finds a pending proposal. -/
structure LetThrough (w : World (LoopStores fold)) (call : ApplyCall) (proposal : CalibrationProposal)
    (log : GateLog) : Prop where
  gate : outerGate loop call.proposalId w = .ok true { w with log }
  stored : w.store.proposals.get call.proposalId = some proposal
  pending : proposal.status = .pending
  named : strip call.approver ≠ []

def policyOf (w : World (LoopStores fold)) (call : ApplyCall) (proposal : CalibrationProposal) :
    Except PyErr (PolicySnapshot fold) :=
  match w.store.policies.get proposal.sourcePolicyVersion.text with
  | none => .error .other
  | some source => applyRecommendation loop.float source proposal.recommendation proposal.proposedNewVersion
      (proposalMetadata proposal call.approver)

def OuterCautious (w : World (LoopStores fold)) (call : ApplyCall) : Prop :=
  ∀ proposal log policy, LetThrough loop w call proposal log → policyOf loop w call proposal = .ok policy →
    ∀ allowed log', saveGate loop policy ⟨w.store.policies, log⟩ = .ok allowed ⟨w.store.policies, log'⟩ →
      allowed = true ∧
        ∀ allowed' log'', activateGate loop policy.version.text ⟨w.store.policies.put policy, log'⟩ =
          .ok allowed' ⟨w.store.policies.put policy, log''⟩ → allowed' = true

def ApplicationReady (w : World (LoopStores fold)) (call : ApplyCall) : Prop :=
  ∀ proposal log, LetThrough loop w call proposal log →
    w.store.policies.get proposal.sourcePolicyVersion.text ≠ none ∧
    strip proposal.proposedNewVersion.text ≠ [] ∧
    ∀ policy, policyOf loop w call proposal = .ok policy →
      ∃ log' log'', saveGate loop policy ⟨w.store.policies, log⟩ = .ok true ⟨w.store.policies, log'⟩ ∧
        activateGate loop policy.version.text ⟨w.store.policies.put policy, log'⟩ =
          .ok true ⟨w.store.policies.put policy, log''⟩

def RollbackCautious (w : World (LoopStores fold)) (id : Uuid) : Prop :=
  ∀ proposal target log, w.store.proposals.get id = some proposal → proposal.rollbackTargetVersion = some target →
    rollbackGate loop proposal target w = .ok true { w with log } →
    ∀ allowed log', activateGate loop target ⟨w.store.policies, log⟩ = .ok allowed ⟨w.store.policies, log'⟩ →
      allowed = true

def OnlyActive (policies : PolicyStore fold) (target : Str) : Prop :=
  ∀ version policy, policies.get version = some policy → policy.isActive = decide (version = target)

def RollbackReady (w : World (LoopStores fold)) (id : Uuid) (rolledBackBy : Str) : Prop :=
  ∀ proposal target log, w.store.proposals.get id = some proposal → proposal.rollbackTargetVersion = some target →
    rollbackGate loop proposal target w = .ok true { w with log } →
    ∀ allowed log', activateGate loop target ⟨w.store.policies, log⟩ = .ok allowed ⟨w.store.policies, log'⟩ →
      allowed = true ∧ (w.store.policies.get target ≠ none →
        (proposal.status = .applied ∧ strip rolledBackBy ≠ []) ∨ OnlyActive w.store.policies target)

end Calls

section Runs

variable {loop : FeedbackLoopOrchestrator} {w : World (LoopStores fold)} {call : ApplyCall}
variable {policy : PolicySnapshot fold}

theorem savePolicy_true {inner inner' : World (PolicyStore fold)}
    (h : saveGate loop policy inner = .ok true inner') :
    savePolicy loop.sameJson loop.draws loop.py loop.binding policy inner =
      .ok () { inner' with store := inner'.store.put policy } := (bind_ok h _).trans rfl

theorem activate_true {version : Str} {target : PolicySnapshot fold} {inner inner' : World (PolicyStore fold)}
    (h : activateGate loop version inner = .ok true inner') (hget : inner'.store.get version = some target) :
    activate loop.draws loop.py loop.binding version inner =
      .ok { target with isActive := true } { inner' with store := inner'.store.flagged version } := by
  refine (bind_ok h _).trans ?_
  unfold activateIf
  rw [hget]
  rfl

theorem activate_unknown {version : Str} {allowed : Bool} {inner inner' : World (PolicyStore fold)}
    (h : activateGate loop version inner = .ok allowed inner') (hget : inner'.store.get version = none) :
    activate loop.draws loop.py loop.binding version inner = .error .other inner' := by
  refine (bind_ok h _).trans ?_
  unfold activateIf
  rw [hget]

def approvedWorld (w : World (LoopStores fold)) (call : ApplyCall) (proposal : CalibrationProposal) (log : GateLog) :
    World (LoopStores fold) :=
  putProposals { w with log }
    (w.store.proposals.put (asApproved proposal call.approver call.approvedAt) call.approvalWrite)

variable {proposal : CalibrationProposal} {log : GateLog}

theorem LetThrough.approves (h : LetThrough loop w call proposal log) :
    Approves w.store.proposals call proposal (asApproved proposal call.approver call.approvedAt) :=
  ⟨h.stored, h.pending, h.named, rfl⟩

theorem approve_eq {store : ProposalStore} (h : store.get call.proposalId = some proposal)
    (hpending : proposal.status = .pending) (hnamed : strip call.approver ≠ []) :
    approve call.proposalId call.approver call.approvedAt call.approvalWrite store =
      .ok (asApproved proposal call.approver call.approvedAt)
        (store.put (asApproved proposal call.approver call.approvedAt) call.approvalWrite) := by
  unfold approve nonBlank
  rw [if_neg hnamed]
  exact transition_eq h hpending

theorem applyProposal_through (h : LetThrough loop w call proposal log) : applyProposal loop call w =
    applyApproved loop call (asApproved proposal call.approver call.approvedAt)
      (approvedWorld w call proposal log) := by
  refine (bind_ok h.gate _).trans ?_
  unfold applyIf
  rw [if_neg (by decide)]
  exact bind_ok (@onProposals_ok _ _ { w with log } _ _ _ (approve_eq h.stored h.pending h.named)) _

theorem approvedWorld_get (h : LetThrough loop w call proposal log) :
    (approvedWorld w call proposal log).store.proposals.get call.proposalId =
      some (asApproved proposal call.approver call.approvedAt) := by
  change (w.store.proposals.put _ _).get _ = _
  rw [ProposalStore.get_put, if_pos h.approves.id.symm]

theorem SameView.of_eq {s t : LoopStores fold} (h : t = s) : SameView s t := by
  rw [h]
  exact .refl s

theorem allOrNothing_of_meets {α : Type} {x : LoopAct fold α} {Done : LoopStores fold → LoopStores fold → Prop}
    (h : Meets x w (fun _ t => t.store = w.store) (fun t => t.store = w.store)) : AllOrNothing x Done w := by
  unfold AllOrNothing
  cases hrun : x w with
  | ok a t => exact .inl (.of_eq (h.of_ok hrun))
  | error e t => exact .of_eq (h.of_error hrun)

theorem allOrNothing_of_stopped (h : ¬ ∃ proposal log, LetThrough loop w call proposal log) :
    AllOrNothing (applyProposal loop call) (AppliedTo call.proposalId) w := by
  refine allOrNothing_of_meets (Meets.seq (gated_meets w).traced fun allowed t ht => ?_)
  obtain ⟨hgate, hstore⟩ := ht
  have ht : t = { w with log := t.log } := by rw [← hstore]
  unfold applyIf
  cases allowed with
  | false =>
    rw [if_pos rfl]
    unfold Meets
    cases hget : t.store.proposals.get call.proposalId with
    | none =>
      rw [onProposals_error (require_missing hget)]
      exact hstore
    | some proposal =>
      rw [onProposals_ok (require_eq hget)]
      exact hstore
  | true =>
    rw [if_neg (by decide)]
    obtain ⟨proposal, approved, happroves, -⟩ | ⟨e, hrun⟩ := approve_cases t.store.proposals call
    · rw [hstore] at happroves
      rw [ht] at hgate
      exact absurd ⟨proposal, t.log, hgate, happroves.stored, happroves.pending, happroves.named⟩ h
    · unfold Meets
      rw [bind_error (onProposals_error hrun)]
      exact hstore

theorem not_error_of_allOrNothing (h : LetThrough loop w call proposal log)
    (hall : AllOrNothing (applyProposal loop call) (AppliedTo call.proposalId) w) :
    ∃ p t, applyApproved loop call (asApproved proposal call.approver call.approvedAt)
      (approvedWorld w call proposal log) = .ok p t := by
  unfold AllOrNothing at hall
  rw [applyProposal_through h] at hall
  cases hrun : applyApproved loop call (asApproved proposal call.approver call.approvedAt)
      (approvedWorld w call proposal log) with
  | ok p t => exact ⟨p, t, rfl⟩
  | error e t =>
    rw [hrun] at hall
    exfalso
    have hbeside := (applyApproved_meets (approvedWorld_get h) rfl).of_error hrun
    have hproposal := SameView.proposals hall call.proposalId
    rw [hbeside.1, approvedWorld_get h, h.stored, Option.some.injEq] at hproposal
    have hstatus := congrArg CalibrationProposal.status hproposal
    rw [h.pending] at hstatus
    cases hstatus

def appliedWorld (w : World (LoopStores fold)) (call : ApplyCall) (proposal : CalibrationProposal)
    (source policy : PolicySnapshot fold) (log : GateLog) : World (LoopStores fold) where
  store :=
    { policies := (w.store.policies.put policy).flagged policy.version.text
      proposals := w.store.proposals.put (asApplied proposal policy.version.text call.appliedAt) call.applicationWrite
      histories := commit call.now source.policyId.text proposal.recommendation w.store.histories }
  log

theorem applyWrites_eq {approved : CalibrationProposal} {source policy : PolicySnapshot fold} {log' log'' : GateLog}
    (hget : w.store.proposals.get call.proposalId = some approved) (hstatus : approved.status = .approved)
    (hsave : saveGate loop policy ⟨w.store.policies, w.log⟩ = .ok true ⟨w.store.policies, log'⟩)
    (hactivate : activateGate loop policy.version.text ⟨w.store.policies.put policy, log'⟩ =
      .ok true ⟨w.store.policies.put policy, log''⟩) :
    applyWrites loop call approved source policy w = .ok (asApplied approved policy.version.text call.appliedAt)
      (appliedWorld w call approved source policy log'') := by
  have hversion : strip policy.version.text ≠ [] := by
    rw [policy.stripped]
    exact policy.version.nonempty
  have hstored : (w.store.policies.put policy).get policy.version.text = some policy := by
    rw [PolicyStore.get_put, if_pos rfl]
  have hsaved : onPolicies (savePolicy loop.sameJson loop.draws loop.py loop.binding policy) w =
      .ok () (putPolicies w ⟨w.store.policies.put policy, log'⟩) := onPolicies_ok (savePolicy_true hsave)
  have hactivated : onPolicies (activate loop.draws loop.py loop.binding policy.version.text)
      (putPolicies w ⟨w.store.policies.put policy, log'⟩) = .ok { policy with isActive := true }
        (putPolicies w ⟨(w.store.policies.put policy).flagged policy.version.text, log''⟩) :=
    @onPolicies_ok _ _ (putPolicies w ⟨w.store.policies.put policy, log'⟩) _ _ _ (activate_true hactivate hstored)
  have happlied : onProposals (markApplied call.proposalId policy.version.text call.appliedAt call.applicationWrite)
      (putHistories (putPolicies w ⟨(w.store.policies.put policy).flagged policy.version.text, log''⟩)
        (commit call.now source.policyId.text approved.recommendation w.store.histories)) =
      .ok (asApplied approved policy.version.text call.appliedAt) (appliedWorld w call approved source policy log'') :=
    @onProposals_ok _ _ (putHistories _ _) _ _ _ (markApplied_eq hget hstatus hversion)
  unfold applyWrites
  rw [bind_ok hsaved, bind_ok hactivated]
  exact happlied

theorem policyOf_eq {source : PolicySnapshot fold}
    (h : w.store.policies.get proposal.sourcePolicyVersion.text = some source) :
    policyOf loop w call proposal = applyRecommendation loop.float source proposal.recommendation
      proposal.proposedNewVersion (proposalMetadata proposal call.approver) := by
  unfold policyOf
  rw [h]

theorem applyApproved_eq {world : World (LoopStores fold)} {approved : CalibrationProposal}
    {source policy : PolicySnapshot fold}
    (hsource : world.store.policies.get approved.sourcePolicyVersion.text = some source)
    (hpolicy : applyRecommendation loop.float source approved.recommendation approved.proposedNewVersion
      (proposalMetadata approved call.approver) = .ok policy) :
    applyApproved loop call approved world = applyWrites loop call approved source policy world := by
  have hraise : raising (applyRecommendation loop.float source approved.recommendation approved.proposedNewVersion
      (proposalMetadata approved call.approver)) world = .ok policy world := by
    unfold raising
    rw [hpolicy]
  unfold applyApproved
  rw [bind_ok (requirePolicy_eq hsource), bind_ok hraise]

theorem applyRecommendation_blank {source : PolicySnapshot fold} {r : CalibrationRecommendation}
    {version : FieldText 100} {more : List (Str × PyObj)} (h : strip version.text = []) :
    applyRecommendation loop.float source r version more = .error .valueError := by
  unfold applyRecommendation
  rw [dif_pos h]

theorem source_of_returns
    (hrun : ∃ p t, applyApproved loop call (asApproved proposal call.approver call.approvedAt)
      (approvedWorld w call proposal log) = .ok p t) :
    w.store.policies.get proposal.sourcePolicyVersion.text ≠ none ∧ strip proposal.proposedNewVersion.text ≠ [] := by
  obtain ⟨p, t, hrun⟩ := hrun
  obtain ⟨source, t₁, hrequire, hrest⟩ := of_bind_ok hrun
  obtain ⟨rfl, hsource⟩ := (requirePolicy_meets _).of_ok hrequire
  obtain ⟨policy, t₂, hraise, -⟩ := of_bind_ok hrest
  obtain ⟨-, hpolicy⟩ := (raising_meets _).of_ok hraise
  refine ⟨fun hnone => Option.some_ne_none _ (hsource.symm.trans hnone), fun hblank => ?_⟩
  cases (applyRecommendation_blank hblank).symm.trans hpolicy

theorem source_of_policy (h : policyOf loop w call proposal = .ok policy) :
    ∃ source, w.store.policies.get proposal.sourcePolicyVersion.text = some source ∧
      applyRecommendation loop.float source proposal.recommendation proposal.proposedNewVersion
        (proposalMetadata proposal call.approver) = .ok policy := by
  unfold policyOf at h
  split at h
  · cases h
  · next source hsource => exact ⟨source, hsource, h⟩

theorem gates_of_returns (h : LetThrough loop w call proposal log)
    (hcautious : OuterCautious loop w call) (hpolicy : policyOf loop w call proposal = .ok policy)
    (hrun : ∃ p t, applyApproved loop call (asApproved proposal call.approver call.approvedAt)
      (approvedWorld w call proposal log) = .ok p t) :
    ∃ log' log'', saveGate loop policy ⟨w.store.policies, log⟩ = .ok true ⟨w.store.policies, log'⟩ ∧
      activateGate loop policy.version.text ⟨w.store.policies.put policy, log'⟩ =
        .ok true ⟨w.store.policies.put policy, log''⟩ := by
  obtain ⟨p, t, hrun⟩ := hrun
  obtain ⟨source, hsource, hrecommended⟩ := source_of_policy hpolicy
  rw [@applyApproved_eq _ loop call (approvedWorld w call proposal log)
    (asApproved proposal call.approver call.approvedAt) source policy hsource hrecommended] at hrun
  have hcautious := hcautious proposal log policy h hpolicy
  obtain ⟨allowed, log', hsave⟩ | ⟨e, log', hsave⟩ := @gated_store _ loop.draws loop.py loop.binding
    (fun store => describePolicySave loop.sameJson store policy) ⟨w.store.policies, log⟩
  · obtain ⟨rfl, hcautious⟩ := hcautious allowed log' hsave
    obtain ⟨allowed, log'', hactivate⟩ | ⟨e, log'', hactivate⟩ := @gated_store _ loop.draws loop.py loop.binding
      (fun store => .ok (describePolicyActivate store policy.version.text)) ⟨w.store.policies.put policy, log'⟩
    · have hallowed := hcautious allowed log'' hactivate
      rw [hallowed] at hactivate
      exact ⟨log', log'', hsave, hactivate⟩
    · exfalso
      have hraises : activate loop.draws loop.py loop.binding policy.version.text
          ⟨w.store.policies.put policy, log'⟩ = .error e ⟨w.store.policies.put policy, log''⟩ := bind_error hactivate _
      have hsaved : onPolicies (savePolicy loop.sameJson loop.draws loop.py loop.binding policy)
          (approvedWorld w call proposal log) = .ok () (putPolicies (approvedWorld w call proposal log)
            ⟨w.store.policies.put policy, log'⟩) :=
        @onPolicies_ok _ _ (approvedWorld w call proposal log) _ _ _ (savePolicy_true hsave)
      unfold applyWrites at hrun
      rw [bind_ok hsaved, bind_error (@onPolicies_error _ _ (putPolicies (approvedWorld w call proposal log)
        ⟨w.store.policies.put policy, log'⟩) _ _ _ hraises)] at hrun
      cases hrun
  · exfalso
    have hraises : savePolicy loop.sameJson loop.draws loop.py loop.binding policy ⟨w.store.policies, log⟩ =
        .error e ⟨w.store.policies, log'⟩ := bind_error hsave _
    unfold applyWrites at hrun
    rw [bind_error (@onPolicies_error _ _ (approvedWorld w call proposal log) _ _ _ hraises)] at hrun
    cases hrun

theorem calibratedFrom_policy {source policy : PolicySnapshot fold}
    (h : applyRecommendation loop.float source proposal.recommendation proposal.proposedNewVersion
      (proposalMetadata proposal call.approver) = .ok policy) :
    CalibratedFrom source proposal { policy with isActive := true } := by
  unfold applyRecommendation at h
  split at h
  · cases h
  · cases h
    exact ⟨rfl, rfl, rfl, rfl, rfl, rfl, rfl, rfl, fun key hkey => lookup_updated_of_ne hkey _⟩

theorem appliedTo_of_ready {source policy : PolicySnapshot fold} (h : LetThrough loop w call proposal log)
    (hsource : w.store.policies.get proposal.sourcePolicyVersion.text = some source)
    (hpolicy : applyRecommendation loop.float source proposal.recommendation proposal.proposedNewVersion
      (proposalMetadata proposal call.approver) = .ok policy) (log'' : GateLog) :
    AppliedTo call.proposalId w.store (appliedWorld (approvedWorld w call proposal log) call
      (asApproved proposal call.approver call.approvedAt) source policy log'').store := by
  have hid : (asApplied (asApproved proposal call.approver call.approvedAt) policy.version.text
      call.appliedAt).proposalId = call.proposalId := h.approves.id
  refine ⟨proposal, source, asApplied (asApproved proposal call.approver call.approvedAt) policy.version.text
    call.appliedAt, { policy with isActive := true }, h.stored, hsource, ?_, rfl, ?_, calibratedFrom_policy hpolicy⟩
  · change (ProposalStore.put _ _ _).get _ = _
    rw [ProposalStore.get_put, if_pos hid.symm]
  · refine PolicyStore.getActive_flagged ?_
    change (w.store.policies.put policy).get _ = _
    rw [PolicyStore.get_put, if_pos rfl]

theorem application_ready_iff : AllOrNothing (applyProposal loop call) (AppliedTo call.proposalId) w ∧
    OuterCautious loop w call ↔ ApplicationReady loop w call := by
  constructor
  · rintro ⟨hall, hcautious⟩ proposal log h
    have hrun := not_error_of_allOrNothing h hall
    obtain ⟨hsource, hversion⟩ := source_of_returns hrun
    exact ⟨hsource, hversion, fun policy hpolicy => gates_of_returns h hcautious hpolicy hrun⟩
  · intro hready
    constructor
    · by_cases hthrough : ∃ proposal log, LetThrough loop w call proposal log
      · obtain ⟨proposal, log, h⟩ := hthrough
        obtain ⟨hsource, hversion, hgates⟩ := hready proposal log h
        obtain ⟨source, hsource⟩ := Option.ne_none_iff_exists'.mp hsource
        obtain ⟨policy, hpolicy⟩ : ∃ policy, applyRecommendation loop.float source proposal.recommendation
            proposal.proposedNewVersion (proposalMetadata proposal call.approver) = .ok policy := by
          unfold applyRecommendation
          rw [dif_neg hversion]
          exact ⟨_, rfl⟩
        obtain ⟨log', log'', hsave, hactivate⟩ := hgates policy ((policyOf_eq hsource).trans hpolicy)
        have hrun := @applyWrites_eq _ loop (approvedWorld w call proposal log) call _ source policy log' log''
          (approvedWorld_get h) rfl hsave hactivate
        unfold AllOrNothing
        rw [applyProposal_through h, @applyApproved_eq _ loop call (approvedWorld w call proposal log)
          (asApproved proposal call.approver call.approvedAt) source policy hsource hpolicy, hrun]
        exact .inr (appliedTo_of_ready h hsource hpolicy log'')
      · exact allOrNothing_of_stopped hthrough
    · intro proposal log policy h hpolicy allowed log' hsave
      obtain ⟨-, -, hgates⟩ := hready proposal log h
      obtain ⟨log₁, log₂, hsave', hactivate'⟩ := hgates policy hpolicy
      cases hsave.symm.trans hsave'
      refine ⟨rfl, fun allowed' log'' hactivate => ?_⟩
      cases hactivate.symm.trans hactivate'
      rfl

variable {id : Uuid} {target rolledBackBy : Str} {now : ℤ} {write : WriteOutcome}

theorem sameView_flagged_iff {s : LoopStores fold} :
    SameView s { s with policies := s.policies.flagged target } ↔ OnlyActive s.policies target := by
  have hflags (version : Str) : (s.policies.flagged target).get version =
      (s.policies.get version).map fun policy => { policy with isActive := decide (version = target) } :=
    s.policies.get?_flags target version
  constructor
  · intro h version stored hstored
    have hsame := h.policies version
    change (s.policies.flagged target).get version = _ at hsame
    rw [hflags, hstored, Option.map_some, Option.some.injEq] at hsame
    exact (congrArg PolicySnapshot.isActive hsame).symm
  · intro h
    have hsame (version : Str) : (s.policies.flagged target).get version = s.policies.get version := by
      rw [hflags]
      cases hstored : s.policies.get version with
      | none => rfl
      | some stored =>
        rw [Option.map_some, ← h version stored hstored]
    refine ⟨hsame, ?_, fun _ => rfl, rfl⟩
    change (s.policies.flagged target).getActive = s.policies.getActive
    unfold PolicyStore.getActive
    simp only [hsame]
    rfl

/-- A call of `rollback_proposal` that its gate lets through. -/
structure RollsThrough (loop : FeedbackLoopOrchestrator) (w : World (LoopStores fold)) (id : Uuid)
    (proposal : CalibrationProposal) (target : Str) (log : GateLog) : Prop where
  stored : w.store.proposals.get id = some proposal
  aimed : proposal.rollbackTargetVersion = some target
  gate : rollbackGate loop proposal target w = .ok true { w with log }

theorem rollback_aimed (hget : w.store.proposals.get id = some proposal)
    (haimed : proposal.rollbackTargetVersion = some target) : rollbackProposal loop id rolledBackBy now write w =
      (rollbackGate loop proposal target >>= rollbackIf loop id proposal target rolledBackBy now write :
        LoopAct fold CalibrationProposal) w := by
  unfold rollbackProposal
  rw [bind_ok (onProposals_ok (require_eq hget))]
  simp only [haimed]
  rfl

theorem rollback_through (h : RollsThrough loop w id proposal target log) :
    rollbackProposal loop id rolledBackBy now write w =
      rollbackIf loop id proposal target rolledBackBy now write true { w with log } :=
  (rollback_aimed h.stored h.aimed).trans (bind_ok h.gate _)

theorem rollback_stopped (h : ¬ ∃ proposal target log, RollsThrough loop w id proposal target log) :
    AllOrNothing (rollbackProposal loop id rolledBackBy now write) (RolledBackTo id) w := by
  refine allOrNothing_of_meets ?_
  unfold Meets
  cases hget : w.store.proposals.get id with
  | none =>
    unfold rollbackProposal
    rw [bind_error (onProposals_error (require_missing hget))]
    rfl
  | some proposal =>
    cases haimed : proposal.rollbackTargetVersion with
    | none =>
      unfold rollbackProposal
      rw [bind_ok (onProposals_ok (require_eq hget))]
      simp only [haimed]
      rfl
    | some target =>
      rw [rollback_aimed hget haimed]
      refine Meets.seq (gated_meets w).traced fun allowed t ht => ?_
      obtain ⟨hgate, hstore⟩ := ht
      cases allowed with
      | false => exact hstore
      | true =>
        have ht : t = { w with log := t.log } := by rw [← hstore]
        rw [ht] at hgate
        exact absurd ⟨proposal, target, t.log, hget, haimed, hgate⟩ h

theorem rollbackIf_eq {log' : GateLog}
    (hactivate : activateGate loop target ⟨w.store.policies, w.log⟩ = .ok true ⟨w.store.policies, log'⟩)
    (hget : w.store.policies.get target = some policy) :
    rollbackIf loop id proposal target rolledBackBy now write true w =
      onProposals (markRolledBack id rolledBackBy now write)
        (putPolicies w ⟨w.store.policies.flagged target, log'⟩) := by
  have hactivated : onPolicies (activate loop.draws loop.py loop.binding target) w =
      .ok { policy with isActive := true } (putPolicies w ⟨w.store.policies.flagged target, log'⟩) :=
    onPolicies_ok (activate_true hactivate hget)
  unfold rollbackIf
  rw [if_neg (by decide)]
  exact bind_ok hactivated _

theorem rollbackIf_raises {e : PyErr} {log' : GateLog}
    (h : activate loop.draws loop.py loop.binding target ⟨w.store.policies, w.log⟩ =
      .error e ⟨w.store.policies, log'⟩) :
    rollbackIf loop id proposal target rolledBackBy now write true w = .error e { w with log := log' } := by
  unfold rollbackIf
  rw [if_neg (by decide)]
  exact bind_error (onPolicies_error h) _

def asRolledBack (proposal : CalibrationProposal) (rolledBackBy : Str) (now : ℤ) : CalibrationProposal :=
  { proposal with status := .rolledBack, rolledBackBy := some (strip rolledBackBy), rolledBackAt := some now }

theorem markRolledBack_eq {store : ProposalStore} (h : store.get id = some proposal)
    (happlied : proposal.status = .applied) (hnamed : strip rolledBackBy ≠ []) :
    markRolledBack id rolledBackBy now write store = .ok (asRolledBack proposal rolledBackBy now)
      (store.put (asRolledBack proposal rolledBackBy now) write) := by
  unfold markRolledBack nonBlank
  rw [if_neg hnamed]
  exact transition_eq h happlied

theorem markRolledBack_raises {store : ProposalStore} (h : store.get id = some proposal)
    (hnot : ¬ (proposal.status = .applied ∧ strip rolledBackBy ≠ [])) :
    ∃ e, markRolledBack id rolledBackBy now write store = .error e store := by
  unfold markRolledBack nonBlank
  by_cases hblank : strip rolledBackBy = []
  · rw [if_pos hblank]
    exact ⟨.valueError, rfl⟩
  · rw [if_neg hblank]
    refine transition_raises fun proposal' hget hstatus => hnot ⟨?_, hblank⟩
    rw [← Option.some.inj (hget.symm.trans h)]
    exact hstatus

theorem rollback_passed_iff {log' : GateLog} (h : RollsThrough loop w id proposal target log)
    (hactivate : activateGate loop target ⟨w.store.policies, log⟩ = .ok true ⟨w.store.policies, log'⟩) :
    AllOrNothing (rollbackProposal loop id rolledBackBy now write) (RolledBackTo id) w ↔
      (w.store.policies.get target ≠ none →
        (proposal.status = .applied ∧ strip rolledBackBy ≠ []) ∨ OnlyActive w.store.policies target) := by
  unfold AllOrNothing
  rw [rollback_through h]
  cases hget : w.store.policies.get target with
  | none =>
    rw [@rollbackIf_raises _ _ { w with log } _ _ _ _ _ _ _ _ (activate_unknown hactivate hget)]
    exact iff_of_true (SameView.refl _) fun hne => absurd rfl hne
  | some policy =>
    rw [@rollbackIf_eq _ _ { w with log } _ _ _ _ _ _ _ _ hactivate hget]
    by_cases hready : proposal.status = .applied ∧ strip rolledBackBy ≠ []
    · rw [@onProposals_ok _ _ (putPolicies { w with log } ⟨w.store.policies.flagged target, log'⟩) _ _ _
        (markRolledBack_eq h.stored hready.1 hready.2)]
      refine iff_of_true (.inr ?_) fun _ => .inl hready
      refine ⟨proposal, target, policy, asRolledBack proposal rolledBackBy now, h.stored, h.aimed, hget, ?_, rfl,
        PolicyStore.getActive_flagged hget⟩
      have hid : (asRolledBack proposal rolledBackBy now).proposalId = id :=
        w.store.proposals.filed id proposal h.stored
      change (ProposalStore.put _ _ _).get _ = _
      rw [ProposalStore.get_put, if_pos hid.symm]
    · obtain ⟨e, hraises⟩ := @markRolledBack_raises _ id rolledBackBy now write w.store.proposals h.stored hready
      rw [@onProposals_error _ _ (putPolicies { w with log } ⟨w.store.policies.flagged target, log'⟩) _ _ _ hraises]
      constructor
      · intro hsame _
        exact .inr (sameView_flagged_iff.mp hsame)
      · intro hor
        obtain happlied | honly := hor (Option.some_ne_none _)
        · exact absurd happlied hready
        · exact sameView_flagged_iff.mpr honly

theorem rollback_ready_iff : AllOrNothing (rollbackProposal loop id rolledBackBy now write) (RolledBackTo id) w ∧
    RollbackCautious loop w id ↔ RollbackReady loop w id rolledBackBy := by
  constructor
  · intro ⟨hall, hcautious⟩ proposal target log hstored haimed hgate allowed log' hactivate
    have hallowed := hcautious proposal target log hstored haimed hgate allowed log' hactivate
    rw [hallowed] at hactivate
    exact ⟨hallowed, (rollback_passed_iff ⟨hstored, haimed, hgate⟩ hactivate).mp hall⟩
  · intro hready
    constructor
    · by_cases hthrough : ∃ proposal target log, RollsThrough loop w id proposal target log
      · obtain ⟨proposal, target, log, h⟩ := hthrough
        have hready := hready proposal target log h.stored h.aimed h.gate
        obtain ⟨allowed, log', hactivate⟩ | ⟨e, log', hactivate⟩ := @gated_store _ loop.draws loop.py loop.binding
          (fun store => .ok (describePolicyActivate store target)) ⟨w.store.policies, log⟩
        · obtain ⟨hallowed, hready⟩ := hready allowed log' hactivate
          rw [hallowed] at hactivate
          exact (rollback_passed_iff h hactivate).mpr hready
        · have hraises : activate loop.draws loop.py loop.binding target ⟨w.store.policies, log⟩ =
              .error e ⟨w.store.policies, log'⟩ := bind_error hactivate _
          unfold AllOrNothing
          rw [rollback_through h, @rollbackIf_raises _ _ { w with log } _ _ _ _ _ _ _ _ hraises]
          exact .refl _
      · exact rollback_stopped hthrough
    · intro proposal target log hstored haimed hgate allowed log' hactivate
      exact (hready proposal target log hstored haimed hgate allowed log' hactivate).1

def asRejected (proposal : CalibrationProposal) (rejecter reason : Str) (now : ℤ) : CalibrationProposal :=
  { proposal with
    status := .rejected
    rejectedBy := some (strip rejecter)
    rejectedAt := some now
    rejectionReason := some (strip reason) }

theorem reject_cases (store : ProposalStore) (rejecter reason : Str) :
    (∃ proposal, store.get id = some proposal ∧ reject id rejecter reason now write store =
        .ok (asRejected proposal rejecter reason now) (store.put (asRejected proposal rejecter reason now) write)) ∨
      ∃ e, reject id rejecter reason now write store = .error e store := by
  unfold reject nonBlank
  by_cases hrejecter : strip rejecter = []
  · rw [if_pos hrejecter]
    exact .inr ⟨.valueError, rfl⟩
  · rw [if_neg hrejecter]
    by_cases hreason : strip reason = []
    · rw [if_pos hreason]
      exact .inr ⟨.valueError, rfl⟩
    · rw [if_neg hreason]
      by_cases hpending : ∃ proposal, store.get id = some proposal ∧ proposal.status = .pending
      · obtain ⟨proposal, hget, hstatus⟩ := hpending
        exact .inl ⟨proposal, hget, transition_eq hget hstatus⟩
      · exact .inr (transition_raises fun proposal hget hstatus => hpending ⟨proposal, hget, hstatus⟩)

theorem reject_allOrNothing (rejecter reason : Str) :
    AllOrNothing (rejectProposal id rejecter reason now write) (fun _ t => RejectedTo id t) w := by
  unfold AllOrNothing rejectProposal
  obtain ⟨proposal, hget, hreject⟩ | ⟨e, hreject⟩ :=
    @reject_cases id now write w.store.proposals rejecter reason
  · rw [onProposals_ok hreject]
    have hid : (asRejected proposal rejecter reason now).proposalId = id := w.store.proposals.filed id proposal hget
    refine .inr ⟨asRejected proposal rejecter reason now, ?_, rfl⟩
    change (ProposalStore.put _ _ _).get _ = _
    rw [ProposalStore.get_put, if_pos hid.symm]
  · rw [onProposals_error hreject]
    exact .refl _

end Runs

end TexGovernance.Learning
