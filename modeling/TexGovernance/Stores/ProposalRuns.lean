import TexGovernance.Lib.Runs
import TexGovernance.Stores.ProposalStore

/-!
# Runs of the proposal store

A proposal moves along the lifecycle in every run in which no restart reads a row that has
lagged behind, and in no other run.
-/

namespace TexGovernance.Stores
open PyStr PyRepr PyDict Actions Relation Runs
open Engine (Uuid)

section Runs

variable (validates : CalibrationProposal → Bool)

def runProposalOps (store : ProposalStore) (ops : List ProposalOp) : ProposalStore :=
  ops.foldl (ProposalOp.apply validates) store

/-- The statuses that a proposal has after each operation, where it is there. -/
def observed (store : ProposalStore) (id : Uuid) (ops : List ProposalOp) : List ProposalStatus :=
  emitted (ProposalOp.apply validates) (fun store op => (op.apply validates store).statusOf id) store ops

theorem observed_concat (store : ProposalStore) (id : Uuid) (ops : List ProposalOp) (op : ProposalOp) :
    observed validates store id (ops ++ [op]) =
      observed validates store id ops ++
        ((op.apply validates (runProposalOps validates store ops)).statusOf id).toList :=
  emitted_concat _ _ store ops op

theorem runProposalOps_concat (store : ProposalStore) (ops : List ProposalOp) (op : ProposalOp) :
    runProposalOps validates store (ops ++ [op]) = op.apply validates (runProposalOps validates store ops) := by
  unfold runProposalOps
  rw [List.foldl_append]
  rfl

end Runs

def SavedIn (id : Uuid) (ops : List ProposalOp) : Prop :=
  ∃ proposal write, .save proposal write ∈ ops ∧ proposal.proposalId = id

def FreshSaves : List ProposalOp → Prop :=
  AtEach fun before op => ∀ proposal write, op = .save proposal write →
    proposal.status = .pending ∧ ¬ SavedIn proposal.proposalId before

def RowsCurrent (validates : CalibrationProposal → Bool) (disabled : Bool) : List ProposalOp → Prop :=
  AtEach fun before op => op = .restart .hydrated → ∀ id row,
    (runProposalOps validates (.fresh disabled) before).rows.get? id = some row → validates row = true →
      (observed validates (.fresh disabled) id before).getLast? = some row.status

structure Tracks (seen : List ProposalStatus) (cached : Option ProposalStatus) (row : Option CalibrationProposal) :
    Prop where
  path : IsPath seen
  last : ∀ status, cached = some status → seen.getLast? = some status
  behind : ∀ stored, row = some stored →
    ∃ status, seen.getLast? = some status ∧ ReflTransGen Leads stored.status status

namespace Tracks

variable {seen : List ProposalStatus} {cached : Option ProposalStatus} {row row' : Option CalibrationProposal}

theorem start : Tracks [] none none where
  path := .nil
  last _ h := (Option.some_ne_none _ h.symm).elim
  behind _ h := (Option.some_ne_none _ h.symm).elim

theorem unseen (h : Tracks seen cached row) (hseen : seen = []) : cached = none ∧ row = none := by
  subst hseen
  refine ⟨Option.eq_none_iff_forall_ne_some.mpr fun status hstatus => ?_,
    Option.eq_none_iff_forall_ne_some.mpr fun stored hstored => ?_⟩
  · cases h.last status hstatus
  · obtain ⟨status, hlast, -⟩ := h.behind stored hstored
    cases hlast

theorem emptied (h : Tracks seen cached row) : Tracks (seen ++ (none : Option ProposalStatus).toList) none row := by
  rw [Option.toList_none, List.append_nil]
  exact ⟨h.path, fun _ hnone => (Option.some_ne_none _ hnone.symm).elim, h.behind⟩

theorem again {status : ProposalStatus} (h : Tracks seen cached row) (hlast : seen.getLast? = some status) :
    Tracks (seen ++ (some status).toList) (some status) row where
  path := h.path.concat hlast .refl
  last next hnext := by
    rw [← hnext]
    exact List.getLast?_concat
  behind stored hstored := by
    obtain ⟨status', hlast', hleads⟩ := h.behind stored hstored
    cases hlast.symm.trans hlast'
    exact ⟨status, List.getLast?_concat, hleads⟩

theorem same (h : Tracks seen cached row) : Tracks (seen ++ cached.toList) cached row := by
  cases hcached : cached with
  | none => exact h.emptied
  | some status => exact h.again (h.last status hcached)

theorem moved {status next : ProposalStatus} (h : Tracks seen (some status) row) (hleads : Leads status next)
    (hrow : ∀ stored, row' = some stored → stored.status = next ∨ row = some stored) :
    Tracks (seen ++ (some next).toList) (some next) row' where
  path := h.path.concat (h.last status rfl) (.single hleads)
  last next' hnext := by
    rw [← hnext]
    exact List.getLast?_concat
  behind stored hstored := by
    refine ⟨next, List.getLast?_concat, ?_⟩
    cases hrow stored hstored with
    | inl hnow =>
      rw [hnow]
    | inr hbefore =>
      obtain ⟨status', hlast, hbehind⟩ := h.behind stored hbefore
      cases (h.last status rfl).symm.trans hlast
      exact hbehind.tail hleads

theorem entered (hrow : ∀ stored, row = some stored → stored.status = .pending) :
    Tracks ([] ++ (some ProposalStatus.pending).toList) (some .pending) row where
  path := .singleton
  last next hnext := by
    rw [← hnext]
    rfl
  behind stored hstored := by
    refine ⟨.pending, rfl, ?_⟩
    rw [hrow stored hstored]

end Tracks

section Along

variable {validates : CalibrationProposal → Bool} {disabled : Bool} {ops : List ProposalOp}

structure Follows (validates : CalibrationProposal → Bool) (disabled : Bool) (ops : List ProposalOp) (id : Uuid) :
    Prop where
  tracks : Tracks (observed validates (.fresh disabled) id ops)
    ((runProposalOps validates (.fresh disabled) ops).statusOf id)
    ((runProposalOps validates (.fresh disabled) ops).rows.get? id)
  unsaved : ¬ SavedIn id ops → observed validates (.fresh disabled) id ops = []

theorem follows_nil (id : Uuid) : Follows validates disabled [] id := ⟨.start, fun _ => rfl⟩

theorem SavedIn.append {id : Uuid} {more : List ProposalOp} (h : SavedIn id ops) : SavedIn id (ops ++ more) := by
  obtain ⟨proposal, write, hmem, hid⟩ := h
  exact ⟨proposal, write, List.mem_append_left _ hmem, hid⟩

variable {store : ProposalStore} {seen : List ProposalStatus}

theorem Tracks.put_of_ne {id : Uuid}
    (h : Tracks seen (store.statusOf id) (store.rows.get? id)) {proposal : CalibrationProposal}
    (hid : id ≠ proposal.proposalId) (write : WriteOutcome) :
    Tracks (seen ++ ((store.put proposal write).statusOf id).toList) ((store.put proposal write).statusOf id)
      ((store.put proposal write).rows.get? id) := by
  rw [statusOf_put, if_neg hid, rows_put_of_ne hid]
  exact h.same

theorem Tracks.saved {proposal : CalibrationProposal}
    (h : Tracks [] (store.statusOf proposal.proposalId) (store.rows.get? proposal.proposalId))
    (hpending : proposal.status = .pending) (write : WriteOutcome) :
    Tracks ([] ++ ((store.put proposal write).statusOf proposal.proposalId).toList)
      ((store.put proposal write).statusOf proposal.proposalId)
      ((store.put proposal write).rows.get? proposal.proposalId) := by
  rw [statusOf_put, if_pos rfl, hpending]
  refine .entered fun stored hstored => ?_
  cases rows_put hstored with
  | inl hnow =>
    rw [hnow]
    exact hpending
  | inr hbefore =>
    rw [(h.unseen rfl).2] at hbefore
    exact (Option.some_ne_none _ hbefore.symm).elim

theorem Tracks.transitioned {store store' : ProposalStore} {id : Uuid}
    (h : Tracks seen (store.statusOf id) (store.rows.get? id)) (hmoves : Transitions store store') :
    Tracks (seen ++ (store'.statusOf id).toList) (store'.statusOf id) (store'.rows.get? id) := by
  obtain ⟨current, updated, write, hcurrent, hupdated, hleads, rfl⟩ := hmoves
  by_cases hid : id = updated.proposalId
  · subst hid
    have hstatus : store.statusOf updated.proposalId = some current.status := by
      unfold ProposalStore.statusOf
      rw [hupdated, hcurrent]
      rfl
    rw [hstatus] at h
    rw [statusOf_put, if_pos rfl]
    refine h.moved hleads fun stored hstored => ?_
    exact (rows_put hstored).imp_left fun hnow => by rw [hnow]
  · exact h.put_of_ne hid write

theorem Tracks.hydrated {id : Uuid} (h : Tracks seen (store.statusOf id) (store.rows.get? id))
    (hrow : ∀ row, store.rows.get? id = some row → validates row = true → seen.getLast? = some row.status) :
    Tracks (seen ++ ((restart validates store .hydrated).statusOf id).toList)
      ((restart validates store .hydrated).statusOf id) ((restart validates store .hydrated).rows.get? id) := by
  cases hstatus : (restart validates store .hydrated).statusOf id with
  | none => exact h.emptied
  | some status =>
    obtain ⟨row, hget, hvalid, rfl⟩ := statusOf_restart.mp hstatus
    exact h.again (hrow row hget hvalid)

theorem Tracks.step {id : Uuid} {op : ProposalOp}
    (h : Tracks seen (store.statusOf id) (store.rows.get? id))
    (hfresh : ∀ proposal write, op = .save proposal write → proposal.proposalId = id →
      proposal.status = .pending ∧ seen = [])
    (hrows : op = .restart .hydrated → ∀ row, store.rows.get? id = some row → validates row = true →
      seen.getLast? = some row.status) :
    Tracks (seen ++ ((op.apply validates store).statusOf id).toList) ((op.apply validates store).statusOf id)
      ((op.apply validates store).rows.get? id) := by
  obtain ⟨proposal, write, rfl⟩ | ⟨bootstrap, rfl⟩ | hsame | hmoves := apply_cases validates store op
  · change Tracks (seen ++ ((store.put proposal write).statusOf id).toList) _ ((store.put proposal write).rows.get? id)
    by_cases hid : proposal.proposalId = id
    · subst hid
      obtain ⟨hpending, rfl⟩ := hfresh proposal write rfl rfl
      exact h.saved hpending write
    · exact h.put_of_ne (Ne.symm hid) write
  · cases bootstrap with
    | unconfigured => exact h.emptied
    | failed => exact h.emptied
    | hydrated => exact h.hydrated (hrows rfl)
  · rw [hsame]
    exact h.same
  · exact h.transitioned hmoves

theorem Tracks.unsaved_step {id : Uuid} {op : ProposalOp}
    (h : Tracks [] (store.statusOf id) (store.rows.get? id))
    (hsave : ∀ proposal write, op = .save proposal write → proposal.proposalId ≠ id) :
    (op.apply validates store).statusOf id = none := by
  obtain ⟨hnone, hrow⟩ := h.unseen rfl
  obtain ⟨proposal, write, rfl⟩ | ⟨bootstrap, rfl⟩ | hsame | hmoves := apply_cases validates store op
  · change (store.put proposal write).statusOf id = none
    rw [statusOf_put, if_neg (hsave proposal write rfl).symm]
    exact hnone
  · cases bootstrap with
    | unconfigured => rfl
    | failed => rfl
    | hydrated =>
      refine Option.eq_none_iff_forall_ne_some.mpr fun status hstatus => ?_
      obtain ⟨row, hget, -, -⟩ := statusOf_restart.mp hstatus
      rw [hrow] at hget
      exact Option.some_ne_none _ hget.symm
  · rw [hsame]
    exact hnone
  · obtain ⟨current, updated, write, hcurrent, hupdated, -, hput⟩ := hmoves
    rw [hput, statusOf_put]
    split
    · next hid =>
      unfold ProposalStore.statusOf at hnone
      rw [hid, hupdated, hcurrent] at hnone
      cases hnone
    · exact hnone

theorem follows {ops : List ProposalOp} (hfresh : FreshSaves ops) (hrows : RowsCurrent validates disabled ops)
    (id : Uuid) : Follows validates disabled ops id := by
  induction ops using List.reverseRecOn with
  | nil => exact follows_nil id
  | append_singleton ops op ih =>
    obtain ⟨hfreshBefore, hfreshLast⟩ := atEach_concat.mp hfresh
    obtain ⟨hrowsBefore, hrowsLast⟩ := atEach_concat.mp hrows
    have h := ih hfreshBefore hrowsBefore
    constructor
    · rw [observed_concat, runProposalOps_concat]
      refine h.tracks.step ?_ ?_
      · intro proposal write hop hid
        obtain ⟨hpending, hunsaved⟩ := hfreshLast proposal write hop
        exact ⟨hpending, h.unsaved (hid ▸ hunsaved)⟩
      · exact fun hop => hrowsLast hop id
    · intro hunsaved
      have hnone := h.unsaved fun hsaved => hunsaved hsaved.append
      have htracks := h.tracks
      rw [hnone] at htracks
      rw [observed_concat, hnone, htracks.unsaved_step ?_]
      · rfl
      · intro proposal write hop hid
        refine hunsaved ⟨proposal, write, ?_, hid⟩
        rw [hop]
        exact List.mem_append_right _ List.mem_cons_self

structure AppliedOnce (seen : List ProposalStatus) : Prop where
  path : IsPath seen
  once : ∀ before status between other rest, seen = before ++ status :: between ++ other :: status :: rest →
    other = status
  rejected : ∀ before between rest, seen ≠ before ++ .rejected :: between ++ .applied :: rest

theorem appliedOnce_iff : AppliedOnce seen ↔ IsPath seen := by
  constructor
  · exact AppliedOnce.path
  · intro h
    refine ⟨h, ?_, ?_⟩
    · intro before status between other rest hseen
      rw [hseen] at h
      exact h.enters_once
    · intro before between rest hseen
      rw [hseen] at h
      exact IsPath.not_applied_of_rejected h

theorem current_of_path {ops : List ProposalOp} {id : Uuid} {row : CalibrationProposal}
    (h : Follows validates disabled ops id)
    (hget : (runProposalOps validates (.fresh disabled) ops).rows.get? id = some row) (hvalid : validates row = true)
    (hpath : IsPath (observed validates (.fresh disabled) id (ops ++ [.restart .hydrated]))) :
    (observed validates (.fresh disabled) id ops).getLast? = some row.status := by
  obtain ⟨last, hlast, hbehind⟩ := h.tracks.behind row hget
  have hread : (ProposalOp.apply validates (runProposalOps validates (.fresh disabled) ops)
      (.restart .hydrated)).statusOf id = some row.status := statusOf_restart.mpr ⟨row, hget, hvalid, rfl⟩
  rw [observed_concat, hread] at hpath
  rw [hlast, eq_of_leads_back hbehind (hpath.leads_of_concat hlast)]

theorem rowsCurrent_of_path {ops : List ProposalOp} (hfresh : FreshSaves ops)
    (hpath : ∀ id, IsPath (observed validates (.fresh disabled) id ops)) : RowsCurrent validates disabled ops := by
  induction ops using List.reverseRecOn with
  | nil => exact atEach_nil
  | append_singleton ops op ih =>
    have hfreshBefore := AtEach.of_append hfresh
    have hbefore : RowsCurrent validates disabled ops := by
      refine ih hfreshBefore fun id => ?_
      have hlonger := hpath id
      rw [observed_concat] at hlonger
      exact hlonger.of_append
    refine atEach_concat.mpr ⟨hbefore, ?_⟩
    intro hop id row hget hvalid
    rw [hop] at hpath
    exact current_of_path (follows hfreshBefore hbefore id) hget hvalid (hpath id)

/-- In a run of fresh saves every proposal is applied at most once if and only if no restart
reads a row that has lagged behind. -/
theorem appliedOnce_iff_rowsCurrent (validates : CalibrationProposal → Bool) (disabled : Bool)
    (ops : List ProposalOp) (hfresh : FreshSaves ops) :
    (∀ id, AppliedOnce (observed validates (.fresh disabled) id ops)) ↔ RowsCurrent validates disabled ops := by
  constructor
  · intro h
    exact rowsCurrent_of_path hfresh fun id => (h id).path
  · intro h id
    exact appliedOnce_iff.mpr (follows hfresh h id).tracks.path

end Along

def sampleProposal : CalibrationProposal where
  proposalId := ⟨txt "00000000-0000-4000-8000-000000000007", by decide⟩
  sourcePolicyId := ⟨txt "default", by decide, by decide⟩
  sourcePolicyVersion := ⟨txt "v1", by decide, by decide⟩
  proposedNewVersion := ⟨txt "v2", by decide, by decide⟩
  recommendation := {
    currentPermitThreshold := 0
    recommendedPermitThreshold := 0
    currentForbidThreshold := 1
    recommendedForbidThreshold := 1
    currentMinimumConfidence := 0
    recommendedMinimumConfidence := 1
    sampleTotal := 100
    reasons := []
    falsePermitRate := 0
    falseForbidRate := 0
    abstainReviewRate := 0
    unknownRate := 0
    sampleWeight := 1
    permitThresholdDelta := 0
    forbidThresholdDelta := 0
    minimumConfidenceDelta := 1 }
  status := .pending
  approvedBy := none
  approvedAt := none
  rejectedBy := none
  rejectedAt := none
  rejectionReason := none
  appliedAt := none
  appliedPolicyVersion := none
  rolledBackBy := none
  rolledBackAt := none
  rollbackTargetVersion := none

/-- A proposal that is approved and applied, and a restart after that. -/
def appliedRun (write : WriteOutcome) : List ProposalOp :=
  [.save sampleProposal .written, .approve sampleProposal.proposalId (txt "ops") 1 write,
    .markApplied sampleProposal.proposalId (txt "v2") 2 write, .restart .hydrated]

/-- The same proposal approved and applied again. -/
def appliedAgain : List ProposalOp :=
  [.approve sampleProposal.proposalId (txt "ops") 3 .written,
    .markApplied sampleProposal.proposalId (txt "v2") 4 .written]

theorem freshSaves_cons {proposal : CalibrationProposal} {write : WriteOutcome} {ops : List ProposalOp}
    (hpending : proposal.status = .pending) (hops : ∀ other outcome, .save other outcome ∉ ops) :
    FreshSaves (.save proposal write :: ops) := by
  intro before op rest hsplit saved outcome hop
  cases before with
  | nil =>
    cases hsplit
    cases hop
    refine ⟨hpending, ?_⟩
    rintro ⟨earlier, write', hmem, -⟩
    cases hmem
  | cons first before =>
    obtain ⟨-, hops'⟩ := List.cons.inj hsplit
    refine absurd ?_ (hops saved outcome)
    rw [hops', hop]
    exact List.mem_append_right _ List.mem_cons_self

theorem rowsCurrent_appliedRun : RowsCurrent (fun _ => true) false (appliedRun .written) := by
  have hquiet : RowsCurrent (fun _ => true) false [.save sampleProposal .written,
      .approve sampleProposal.proposalId (txt "ops") 1 .written,
      .markApplied sampleProposal.proposalId (txt "v2") 2 .written] := by
    intro before op rest hsplit hop
    have hmem : op ∈ before ++ op :: rest := List.mem_append_right _ List.mem_cons_self
    rw [← hsplit, hop] at hmem
    simp at hmem
  refine atEach_concat.mpr ⟨hquiet, ?_⟩
  intro _ id row hget _
  have hrows : (runProposalOps (fun _ => true) (.fresh false) [.save sampleProposal .written,
      .approve sampleProposal.proposalId (txt "ops") 1 .written,
      .markApplied sampleProposal.proposalId (txt "v2") 2 .written]).rows.items.map
        (fun item => (item.1, item.2.status)) = [(sampleProposal.proposalId, .applied)] := by
    rfl
  have hmem := List.mem_map_of_mem (f := fun item => (item.1, item.2.status)) ((Dict.get?_eq_some_iff _ _ _).mp hget)
  rw [hrows, List.mem_singleton, Prod.mk.injEq] at hmem
  obtain ⟨hid, hstatus⟩ : id = sampleProposal.proposalId ∧ row.status = .applied := hmem
  rw [hid, hstatus]
  rfl

/-- No write is lost, and the row that the restart reads is current. -/
theorem appliedRun_applied_once :
    AppliedOnce (observed (fun _ => true) (.fresh false) sampleProposal.proposalId (appliedRun .written)) :=
  (appliedOnce_iff_rowsCurrent (fun _ => true) false (appliedRun .written)
    (freshSaves_cons rfl (by simp))).mpr rowsCurrent_appliedRun sampleProposal.proposalId

/-- The writes of the approval and of the application are lost, and the restart brings the
proposal back to its start. -/
theorem proposal_applied_twice : FreshSaves (appliedRun .lost ++ appliedAgain) ∧
    observed (fun _ => true) (.fresh false) sampleProposal.proposalId (appliedRun .lost ++ appliedAgain) =
      [.pending, .approved, .applied, .pending, .approved, .applied] ∧
    ¬ AppliedOnce
      (observed (fun _ => true) (.fresh false) sampleProposal.proposalId (appliedRun .lost ++ appliedAgain)) := by
  have hseen : observed (fun _ => true) (.fresh false) sampleProposal.proposalId (appliedRun .lost ++ appliedAgain) =
      [.pending, .approved, .applied, .pending, .approved, .applied] := by
    rfl
  refine ⟨freshSaves_cons rfl (by simp [appliedAgain]), hseen, ?_⟩
  intro h
  rw [hseen] at h
  cases h.once [.pending, .approved] .applied [.pending] .approved [] rfl

end TexGovernance.Stores
