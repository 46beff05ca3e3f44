import TexGovernance.Learning.FeedbackLoop

/-!
# What a draft and an application do

A draft that is saved passed the guard when it was drafted. An application that succeeds is
committed to the guard, and nothing else is.
-/

namespace TexGovernance.Learning
open PyStr PyRepr PyDict PyJson PyFloat CaseFold Actions Domain Stores Selfgov
open Engine (Uuid)

variable {loop : FeedbackLoopOrchestrator} {fold : CaseFolding} {α : Type} {w : World (LoopStores fold)}

theorem after_onPolicies (x : EStateM PyErr (World (PolicyStore fold)) α) :
    (after (onPolicies x) w).store.proposals = w.store.proposals ∧
      (after (onPolicies x) w).store.histories = w.store.histories := by
  unfold onPolicies
  rw [after_zoom]
  exact ⟨rfl, rfl⟩

theorem onPolicies_ok {x : EStateM PyErr (World (PolicyStore fold)) α} {a : α} {inner : World (PolicyStore fold)}
    (h : x ⟨w.store.policies, w.log⟩ = .ok a inner) : onPolicies x w = .ok a (putPolicies w inner) := zoom_ok h

theorem onPolicies_error {x : EStateM PyErr (World (PolicyStore fold)) α} {e : PyErr}
    {inner : World (PolicyStore fold)} (h : x ⟨w.store.policies, w.log⟩ = .error e inner) :
    onPolicies x w = .error e (putPolicies w inner) := zoom_error h

theorem onProposals_ok {x : ProposalAct α} {a : α} {proposals : ProposalStore}
    (h : x w.store.proposals = .ok a proposals) : onProposals x w = .ok a (putProposals w proposals) := zoom_ok h

theorem onProposals_error {x : ProposalAct α} {e : PyErr} {proposals : ProposalStore}
    (h : x w.store.proposals = .error e proposals) : onProposals x w = .error e (putProposals w proposals) :=
  zoom_error h

theorem gated_store {σ : Type} {draws : Draws} {py : Interpreter} {binding : Option Binding}
    {describe : σ → Except PyErr MutationDescriptor} (w : World σ) :
    (∃ allowed log', gated draws py binding describe w = .ok allowed { w with log := log' }) ∨
      ∃ e log', gated draws py binding describe w = .error e { w with log := log' } := by
  unfold gated
  cases gateControllerMutation draws py binding ⟨describe w.store, describe w.store⟩ w.log with
  | ok outcome log' => exact .inl ⟨outcome.allowed, log', rfl⟩
  | error e log' => exact .inr ⟨e, log', rfl⟩

theorem gated_meets {σ : Type} {draws : Draws} {py : Interpreter} {binding : Option Binding}
    {describe : σ → Except PyErr MutationDescriptor} (w : World σ) :
    Meets (gated draws py binding describe) w (fun _ t => t.store = w.store) (fun t => t.store = w.store) := by
  obtain ⟨allowed, log', hgate⟩ | ⟨e, log', hgate⟩ := @gated_store σ draws py binding describe w
  · unfold Meets
    rw [hgate]
  · unfold Meets
    rw [hgate]

section Apply

variable {call : ApplyCall}

def asApproved (proposal : CalibrationProposal) (approver : Str) (now : ℤ) : CalibrationProposal :=
  { proposal with status := .approved, approvedBy := some (strip approver), approvedAt := some now }

structure Approves (store : ProposalStore) (call : ApplyCall) (proposal approved : CalibrationProposal) : Prop where
  stored : store.get call.proposalId = some proposal
  pending : proposal.status = .pending
  named : strip call.approver ≠ []
  approved_eq : approved = asApproved proposal call.approver call.approvedAt

variable {store : ProposalStore}

theorem Approves.id {proposal approved : CalibrationProposal}
    (h : Approves store call proposal approved) : approved.proposalId = call.proposalId := by
  rw [h.approved_eq]
  exact store.filed _ proposal h.stored

theorem require_eq {id : Uuid} {proposal : CalibrationProposal}
    (h : store.get id = some proposal) : require id store = .ok proposal store := by
  unfold require
  rw [h]

theorem require_missing {id : Uuid} (h : store.get id = none) :
    require id store = .error .other store := by
  unfold require
  rw [h]

theorem transition_eq {id : Uuid} {required : ProposalStatus}
    {update : CalibrationProposal → CalibrationProposal} {write : WriteOutcome} {proposal : CalibrationProposal}
    (h : store.get id = some proposal) (hstatus : proposal.status = required) :
    transition id required update write store = .ok (update proposal) (store.put (update proposal) write) := by
  unfold transition
  rw [bind_ok (require_eq h), if_neg (not_not_intro hstatus)]
  rfl

theorem transition_raises {id : Uuid} {required : ProposalStatus}
    {update : CalibrationProposal → CalibrationProposal} {write : WriteOutcome}
    (h : ∀ proposal, store.get id = some proposal → proposal.status ≠ required) :
    ∃ e, transition id required update write store = .error e store := by
  unfold transition
  cases hget : store.get id with
  | none => exact ⟨.other, bind_error (require_missing hget) _⟩
  | some proposal =>
    refine ⟨.other, ?_⟩
    rw [bind_ok (require_eq hget), if_pos (h proposal hget)]
    rfl

theorem approve_cases (store : ProposalStore) (call : ApplyCall) :
    (∃ proposal approved, Approves store call proposal approved ∧
      approve call.proposalId call.approver call.approvedAt call.approvalWrite store =
        .ok approved (store.put approved call.approvalWrite)) ∨
    ∃ e, approve call.proposalId call.approver call.approvedAt call.approvalWrite store = .error e store := by
  unfold approve nonBlank
  by_cases hblank : strip call.approver = []
  · rw [if_pos hblank]
    exact .inr ⟨.valueError, rfl⟩
  rw [if_neg hblank]
  by_cases hpending : ∃ proposal, store.get call.proposalId = some proposal ∧ proposal.status = .pending
  · obtain ⟨proposal, hget, hstatus⟩ := hpending
    exact .inl ⟨proposal, _, ⟨hget, hstatus, hblank, rfl⟩, transition_eq hget hstatus⟩
  · exact .inr (transition_raises fun proposal hget hstatus => hpending ⟨proposal, hget, hstatus⟩)

def asApplied (approved : CalibrationProposal) (version : Str) (now : ℤ) : CalibrationProposal :=
  { approved with
    status := .applied
    appliedAt := some now
    appliedPolicyVersion := some (strip version)
    rollbackTargetVersion := some approved.sourcePolicyVersion.text }

theorem markApplied_eq {id : Uuid} {version : Str} {now : ℤ} {write : WriteOutcome}
    {approved : CalibrationProposal} (h : store.get id = some approved) (hstatus : approved.status = .approved)
    (hversion : strip version ≠ []) : markApplied id version now write store =
      .ok (asApplied approved version now) (store.put (asApplied approved version now) write) := by
  unfold markApplied nonBlank
  rw [if_neg hversion]
  exact transition_eq h hstatus

theorem requirePolicy_eq {version : Str} {source : PolicySnapshot fold}
    (h : w.store.policies.get version = some source) : requirePolicy version w = .ok source w := by
  unfold requirePolicy
  rw [h]

theorem requirePolicy_missing {version : Str} (h : w.store.policies.get version = none) :
    requirePolicy version w = .error .other w := by
  unfold requirePolicy
  rw [h]

theorem requirePolicy_meets (version : Str) : Meets (requirePolicy version) w
    (fun source t => t = w ∧ w.store.policies.get version = some source) (fun t => t = w) := by
  unfold Meets
  cases hget : w.store.policies.get version with
  | none => rw [requirePolicy_missing hget]
  | some source =>
    rw [requirePolicy_eq hget]
    exact ⟨rfl, rfl⟩

theorem raising_meets (x : Except PyErr α) :
    Meets (raising x) w (fun a t => t = w ∧ x = .ok a) (fun t => t = w) := by
  cases x with
  | ok a => exact ⟨rfl, rfl⟩
  | error e => rfl

def Commits (w : World (LoopStores fold)) (call : ApplyCall) (proposal : CalibrationProposal)
    (t : World (LoopStores fold)) : Prop :=
  ∃ source, w.store.policies.get proposal.sourcePolicyVersion.text = some source ∧
    t.store.histories = commit call.now source.policyId.text proposal.recommendation w.store.histories

def SameBeside (w t : World (LoopStores fold)) : Prop :=
  t.store.proposals = w.store.proposals ∧ t.store.histories = w.store.histories

theorem onPolicies_meets {x : EStateM PyErr (World (PolicyStore fold)) α} {t : World (LoopStores fold)}
    (h : SameBeside w t) : Meets (onPolicies x) t (fun _ => SameBeside w) (SameBeside w) := by
  have hframe := @after_onPolicies _ _ t x
  exact .of_after ⟨hframe.1.trans h.1, hframe.2.trans h.2⟩

theorem applyWrites_meets {approved : CalibrationProposal} {source newPolicy : PolicySnapshot fold}
    (hget : w.store.proposals.get call.proposalId = some approved) (hstatus : approved.status = .approved) :
    Meets (applyWrites loop call approved source newPolicy) w (fun p t => p.status = .applied ∧
        t.store.histories = commit call.now source.policyId.text approved.recommendation w.store.histories)
      (SameBeside w) := by
  unfold applyWrites
  refine (onPolicies_meets ⟨rfl, rfl⟩).seq fun _ t ht => ?_
  refine (onPolicies_meets ht).seq fun _ t ht => ?_
  obtain ⟨hproposals, hhistories⟩ := ht
  have hversion : strip newPolicy.version.text ≠ [] := by
    rw [newPolicy.stripped]
    exact newPolicy.version.nonempty
  have happlied := @markApplied_eq t.store.proposals call.proposalId newPolicy.version.text call.appliedAt
    call.applicationWrite approved (by rw [hproposals]; exact hget) hstatus hversion
  have hrun := @onProposals_ok fold _
    (putHistories t (commit call.now source.policyId.text approved.recommendation t.store.histories)) _ _ _ happlied
  refine .read ?_
  change Meets (onProposals _) (putHistories t _) _ _
  unfold Meets
  rw [hrun]
  exact ⟨rfl, by rw [← hhistories]; rfl⟩

theorem applyApproved_meets {approved : CalibrationProposal}
    (hget : w.store.proposals.get call.proposalId = some approved) (hstatus : approved.status = .approved) :
    Meets (applyApproved loop call approved) w (fun p t => p.status = .applied ∧ Commits w call approved t)
      (SameBeside w) := by
  have hsame : ∀ t : World (LoopStores fold), t = w → SameBeside w t := by
    intro t h
    rw [h]
    exact ⟨rfl, rfl⟩
  unfold applyApproved
  refine ((requirePolicy_meets _).mono (fun _ _ h => h) hsame).seq fun source t h => ?_
  obtain ⟨ht, hsource⟩ := h
  rw [ht]
  refine ((raising_meets _).mono (fun _ _ h => h) hsame).seq fun newPolicy t h => ?_
  rw [h.1]
  exact (applyWrites_meets hget hstatus).mono (fun p t h => ⟨h.1, source, hsource, h.2⟩) fun t h => h

theorem require_meets : Meets (onProposals (require call.proposalId)) w
    (fun p t => t.store.histories = w.store.histories ∧ w.store.proposals.get call.proposalId = some p)
    (fun t => t.store.histories = w.store.histories) := by
  unfold Meets
  cases hget : w.store.proposals.get call.proposalId with
  | none =>
    rw [onProposals_error (require_missing hget)]
    rfl
  | some proposal =>
    rw [onProposals_ok (require_eq hget)]
    exact ⟨rfl, rfl⟩

theorem approve_meets :
    Meets (onProposals (approve call.proposalId call.approver call.approvedAt call.approvalWrite)) w
      (fun approved t => (∃ proposal, Approves w.store.proposals call proposal approved) ∧
        t = putProposals w (w.store.proposals.put approved call.approvalWrite))
      (fun t => t.store.histories = w.store.histories) := by
  unfold Meets
  obtain ⟨proposal, approved, happroves, hrun⟩ | ⟨e, hrun⟩ := approve_cases w.store.proposals call
  · rw [onProposals_ok hrun]
    exact ⟨⟨proposal, happroves⟩, rfl⟩
  · rw [onProposals_error hrun]
    rfl

theorem applyProposal_meets : Meets (applyProposal loop call) w
    (fun p t => (t.store.histories = w.store.histories ∧ w.store.proposals.get call.proposalId = some p) ∨
      ∃ proposal, w.store.proposals.get call.proposalId = some proposal ∧ proposal.status = .pending ∧
        p.status = .applied ∧ Commits w call proposal t)
    (fun t => t.store.histories = w.store.histories) := by
  refine ((gated_meets w).mono (fun _ _ h => h) fun t h => by rw [h]).seq fun allowed t ht => ?_
  unfold applyIf
  split
  · refine require_meets.mono (fun p t' h => .inl ?_) fun t' h => ?_
    · rwa [ht] at h
    · rw [h, ht]
  · refine (approve_meets.mono (fun _ _ h => h) fun t' h => by rw [h, ht]).seq ?_
    rintro approved _ ⟨⟨proposal, happroves⟩, rfl⟩
    have hstored : (putProposals t (t.store.proposals.put approved call.approvalWrite)).store.proposals.get
        call.proposalId = some approved := by
      change (t.store.proposals.put approved call.approvalWrite).get _ = _
      rw [ProposalStore.get_put, if_pos happroves.id.symm]
    have hstatus : approved.status = .approved := by
      rw [happroves.approved_eq]
      rfl
    refine (applyApproved_meets hstored hstatus).mono (fun p t' h => .inr ?_) fun t' h => ?_
    · obtain ⟨happlied, source, hsource, hcommit⟩ := h
      rw [happroves.approved_eq] at hsource hcommit
      refine ⟨proposal, ?_, happroves.pending, happlied, source, ?_, ?_⟩
      · rw [← ht]
        exact happroves.stored
      · rw [← ht]
        exact hsource
      · rw [← ht]
        exact hcommit
    · rw [h.2, ← ht]
      rfl

end Apply

section Draft

variable {call : ProposeCall}

def Prunes (g : CalibrationSafetyGuard) (now : ℤ) (histories histories' : Histories) : Prop :=
  histories' = histories ∨
    ∃ policyId, histories' = histories.set policyId (pruned g now (historyOf histories policyId))

structure Passes (loop : FeedbackLoopOrchestrator) (call : ProposeCall) (histories : Histories)
    (source : PolicySnapshot fold) (p : CalibrationProposal) : Prop where
  id : p.proposalId = call.proposalId
  pending : p.status = .pending
  family : p.sourcePolicyId = source.policyId
  spaced : rateLimited loop.safety call.now (historyOf histories source.policyId.text) = false
  afforded : budgetExhausted loop.safety (pruned loop.safety call.now (historyOf histories source.policyId.text))
    (loop.calibrator.recommend source call.summary) = false
  clipped : ∃ reasons, p.recommendation =
    clippedTo loop.safety (loop.calibrator.recommend source call.summary) reasons

variable {source : PolicySnapshot fold}

theorem requireActive_eq (h : w.store.policies.getActive = some source) :
    requireActive w = .ok source w := by
  unfold requireActive
  rw [h]

theorem requireActive_missing (h : w.store.policies.getActive = none) : requireActive w = .error .other w := by
  unfold requireActive
  rw [h]

theorem requireActive_meets : Meets requireActive w (fun source t => t = w ∧ requireActive w = .ok source w)
    (fun t => t = w) := by
  unfold Meets
  cases hactive : w.store.policies.getActive with
  | none => rw [requireActive_missing hactive]
  | some source =>
    rw [requireActive_eq hactive]
    exact ⟨rfl, rfl⟩

theorem resolve_meets (version : Option Str) : Meets (resolveSourcePolicy version) w
    (fun source t => t = w ∧ resolveSourcePolicy version w = .ok source w) (fun t => t = w) := by
  cases version with
  | none => exact requireActive_meets
  | some version =>
    exact (requirePolicy_meets (strip version)).mono (fun source t h => ⟨h.1, requirePolicy_eq h.2⟩) fun t h => h

theorem buildProposal_ok {r : CalibrationRecommendation} {p : CalibrationProposal}
    (h : buildProposal call source r = .ok p) : p.proposalId = call.proposalId ∧ p.status = .pending ∧
      p.sourcePolicyId = source.policyId ∧ p.recommendation = r := by
  unfold buildProposal at h
  simp only [bind, Except.bind, pure, Except.pure] at h
  split at h
  · cases h
  · split at h
    · cases h
    · split at h
      · cases h
      · rw [← Except.ok.inj h]
        exact ⟨rfl, rfl, rfl, rfl⟩

/-- What a call of `propose` comes to. -/
structure Proposes (loop : FeedbackLoopOrchestrator) (call : ProposeCall) (w : World (LoopStores fold))
    (drafted : Option CalibrationProposal) (t : World (LoopStores fold)) : Prop where
  histories : Prunes loop.safety call.now w.store.histories t.store.histories
  passes : ∀ p, drafted = some p → t.store.proposals = w.store.proposals.put p call.write ∧
    ∃ source, Passes loop call w.store.histories source p ∧
      resolveSourcePolicy call.sourcePolicyVersion w = .ok source w

theorem Proposes.nothing {t : World (LoopStores fold)}
    (h : Prunes loop.safety call.now w.store.histories t.store.histories) : Proposes loop call w none t :=
  ⟨h, fun _ hnone => (Option.some_ne_none _ hnone.symm).elim⟩

theorem saveDraft_meets {r : CalibrationRecommendation} {t : World (LoopStores fold)}
    (hprunes : Prunes loop.safety call.now w.store.histories t.store.histories)
    (hproposals : t.store.proposals = w.store.proposals)
    (hresolve : resolveSourcePolicy call.sourcePolicyVersion w = .ok source w)
    (hpasses : ∀ p, buildProposal call source r = .ok p → Passes loop call w.store.histories source p) :
    Meets (saveDraft call source r) t (Proposes loop call w)
      (fun t => Prunes loop.safety call.now w.store.histories t.store.histories) := by
  unfold saveDraft
  refine ((raising_meets (buildProposal call source r)).mono (fun _ _ h => h) fun t h => ?_).seq ?_
  · rw [h]
    exact hprunes
  intro p t' h
  obtain ⟨ht', hbuild⟩ := h
  rw [ht']
  change Proposes loop call w (some p) (putProposals t (t.store.proposals.put p call.write))
  refine ⟨hprunes, fun p' hp' => ?_⟩
  cases hp'
  refine ⟨?_, source, hpasses p hbuild, hresolve⟩
  rw [← hproposals]
  rfl

theorem draftFrom_meets (hresolve : resolveSourcePolicy call.sourcePolicyVersion w = .ok source w) :
    Meets (draftFrom loop call source) w (Proposes loop call w)
      (fun t => Prunes loop.safety call.now w.store.histories t.store.histories) := by
  unfold draftFrom
  have hprunes : Prunes loop.safety call.now w.store.histories (w.store.histories.set source.policyId.text
      (pruned loop.safety call.now (historyOf w.store.histories source.policyId.text))) :=
    .inr ⟨source.policyId.text, rfl⟩
  set t := putHistories w (w.store.histories.set source.policyId.text
    (pruned loop.safety call.now (historyOf w.store.histories source.policyId.text))) with ht
  change Meets (if (decision ..).allowed = false then _ else _) t _ _
  split
  · exact .ret (.nothing hprunes)
  · next hallowed =>
    split
    · exact .ret (.nothing hprunes)
    split
    · exact .ret (.nothing hprunes)
    refine saveDraft_meets hprunes rfl hresolve fun p hbuild => ?_
    obtain ⟨hid, hstatus, hfamily, hrecommendation⟩ := buildProposal_ok hbuild
    have hchecks : rateLimited loop.safety call.now (historyOf w.store.histories source.policyId.text) = false ∧
        budgetExhausted loop.safety
          (pruned loop.safety call.now (historyOf w.store.histories source.policyId.text))
          (loop.calibrator.recommend source call.summary) = false := by
      refine Bool.or_eq_false_iff.mp ?_
      rw [Bool.not_eq_false] at hallowed
      exact (Bool.not_eq_true' _).mp hallowed
    exact ⟨hid, hstatus, hfamily, hchecks.1, hchecks.2, _, hrecommendation⟩

theorem propose_meets : Meets (propose loop call) w (Proposes loop call w)
    (fun t => Prunes loop.safety call.now w.store.histories t.store.histories) := by
  have hsame : Prunes loop.safety call.now w.store.histories w.store.histories := .inl rfl
  unfold propose
  split
  · exact hsame
  split
  · exact hsame
  refine ((resolve_meets call.sourcePolicyVersion).mono (fun _ _ h => h) fun t h => by rw [h]; exact hsame).seq ?_
  rintro source _ ⟨rfl, hresolve⟩
  split
  · exact .ret (.nothing hsame)
  · exact draftFrom_meets hresolve

end Draft

end TexGovernance.Learning
