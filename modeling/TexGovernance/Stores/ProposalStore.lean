import Mathlib.Data.List.Chain
import Mathlib.Logic.Relation
import TexGovernance.Domain.Models
import TexGovernance.Engine.ContractBridge
import TexGovernance.Lib.Actions
import TexGovernance.Lib.PyDict

/-!
# The proposal store

`CalibrationProposalStore` (`stores/calibration_proposal_store.py`): a cache that gates the
transitions of a proposal, and a table that every transition is written through to.
-/

namespace TexGovernance.Stores
open PyStr PyRepr PyDict Actions
open Engine (Uuid)

/-- `CalibrationRecommendation` (`learning/calibrator.py`); of the summary the total only. -/
structure CalibrationRecommendation where
  currentPermitThreshold : ℚ
  recommendedPermitThreshold : ℚ
  currentForbidThreshold : ℚ
  recommendedForbidThreshold : ℚ
  currentMinimumConfidence : ℚ
  recommendedMinimumConfidence : ℚ
  sampleTotal : ℤ
  reasons : List Str
  falsePermitRate : ℚ
  falseForbidRate : ℚ
  abstainReviewRate : ℚ
  unknownRate : ℚ
  sampleWeight : ℚ
  permitThresholdDelta : ℚ
  forbidThresholdDelta : ℚ
  minimumConfidenceDelta : ℚ
  deriving DecidableEq

namespace CalibrationRecommendation

variable (r : CalibrationRecommendation)

def changed : Bool :=
  r.currentPermitThreshold ≠ r.recommendedPermitThreshold ∨
    r.currentForbidThreshold ≠ r.recommendedForbidThreshold ∨
    r.currentMinimumConfidence ≠ r.recommendedMinimumConfidence

end CalibrationRecommendation

inductive ProposalStatus where
  | pending
  | approved
  | rejected
  | applied
  | rolledBack
  | expired
  deriving DecidableEq

/-- A `CalibrationProposal` (`domain/calibration_proposal.py`). -/
structure CalibrationProposal where
  proposalId : Uuid
  sourcePolicyId : FieldText 255
  sourcePolicyVersion : FieldText 100
  proposedNewVersion : FieldText 100
  recommendation : CalibrationRecommendation
  status : ProposalStatus
  approvedBy : Option Str
  approvedAt : Option ℤ
  rejectedBy : Option Str
  rejectedAt : Option ℤ
  rejectionReason : Option Str
  appliedAt : Option ℤ
  appliedPolicyVersion : Option Str
  rolledBackBy : Option Str
  rolledBackAt : Option ℤ
  rollbackTargetVersion : Option Str
  deriving DecidableEq

structure ProposalStore where
  byId : Dict Uuid CalibrationProposal
  disabled : Bool
  rows : Dict Uuid CalibrationProposal
  filed : ∀ id proposal, byId.get? id = some proposal → proposal.proposalId = id
  rowsFiled : ∀ id row, rows.get? id = some row → row.proposalId = id

inductive WriteOutcome where
  | written
  | eventLost
  | lost
  deriving DecidableEq

namespace ProposalStore

variable (store : ProposalStore)

/-- A store on an empty table. -/
def fresh (disabled : Bool) : ProposalStore where
  byId := .empty
  disabled
  rows := .empty
  filed _ _ h := (Option.some_ne_none _ h.symm).elim
  rowsFiled _ _ h := (Option.some_ne_none _ h.symm).elim

def get (id : Uuid) : Option CalibrationProposal := store.byId.get? id

def rowsAfter (proposal : CalibrationProposal) (write : WriteOutcome) : Dict Uuid CalibrationProposal :=
  if store.disabled ∨ write = .lost then store.rows else store.rows.set proposal.proposalId proposal

theorem filed_set {found : Dict Uuid CalibrationProposal}
    (h : ∀ id proposal, found.get? id = some proposal → proposal.proposalId = id) (proposal : CalibrationProposal)
    (id : Uuid) (stored : CalibrationProposal) (hget : (found.set proposal.proposalId proposal).get? id = some stored) :
    stored.proposalId = id := by
  rw [Dict.get?_set] at hget
  by_cases hid : id = proposal.proposalId
  · rw [if_pos hid, Option.some.injEq] at hget
    rw [hid, hget]
  · rw [if_neg hid] at hget
    exact h id stored hget

def put (proposal : CalibrationProposal) (write : WriteOutcome) : ProposalStore where
  byId := store.byId.set proposal.proposalId proposal
  disabled := store.disabled
  rows := store.rowsAfter proposal write
  filed := filed_set store.filed proposal
  rowsFiled := by
    unfold rowsAfter
    split
    · exact store.rowsFiled
    · exact filed_set store.rowsFiled proposal

theorem get_put (proposal : CalibrationProposal) (write : WriteOutcome) (id : Uuid) :
    (store.put proposal write).get id = if id = proposal.proposalId then some proposal else store.get id :=
  Dict.get?_set _ _ _ _

end ProposalStore

abbrev ProposalAct (α : Type) := EStateM PyErr ProposalStore α

def saveProposal (proposal : CalibrationProposal) (write : WriteOutcome) : ProposalAct Unit :=
  modify fun store => store.put proposal write

/-- `require`. -/
def require (id : Uuid) : ProposalAct CalibrationProposal := fun store =>
  match store.get id with
  | none => .error .other store
  | some proposal => .ok proposal store

/-- The part that the transitions share: a proposal in the `required` status is updated. The
update keeps the id, so the proposal is stored under the id that was asked for. -/
def transition (id : Uuid) (required : ProposalStatus) (update : CalibrationProposal → CalibrationProposal)
    (write : WriteOutcome) : ProposalAct CalibrationProposal := do
  let current ← require id
  if current.status ≠ required then
    throw .other
  modify fun store => store.put (update current) write
  return update current

/-- `(text or "").strip()`, which must not be blank. -/
def nonBlank (text : Str) : ProposalAct Str := if strip text = [] then throw .valueError else return strip text

def approve (id : Uuid) (approver : Str) (now : ℤ) (write : WriteOutcome) : ProposalAct CalibrationProposal := do
  let normalized ← nonBlank approver
  transition id .pending
    (fun current => { current with status := .approved, approvedBy := some normalized, approvedAt := some now }) write

def reject (id : Uuid) (rejecter reason : Str) (now : ℤ) (write : WriteOutcome) :
    ProposalAct CalibrationProposal := do
  let normalized ← nonBlank rejecter
  let normalizedReason ← nonBlank reason
  transition id .pending
    (fun current => { current with
      status := .rejected
      rejectedBy := some normalized
      rejectedAt := some now
      rejectionReason := some normalizedReason }) write

def markApplied (id : Uuid) (appliedPolicyVersion : Str) (now : ℤ) (write : WriteOutcome) :
    ProposalAct CalibrationProposal := do
  let normalizedVersion ← nonBlank appliedPolicyVersion
  transition id .approved
    (fun current => { current with
      status := .applied
      appliedAt := some now
      appliedPolicyVersion := some normalizedVersion
      rollbackTargetVersion := some current.sourcePolicyVersion.text }) write

def markRolledBack (id : Uuid) (rolledBackBy : Str) (now : ℤ) (write : WriteOutcome) :
    ProposalAct CalibrationProposal := do
  let normalized ← nonBlank rolledBackBy
  transition id .applied
    (fun current => { current with
      status := .rolledBack
      rolledBackBy := some normalized
      rolledBackAt := some now }) write

def markExpired (id : Uuid) (write : WriteOutcome) : ProposalAct CalibrationProposal :=
  transition id .pending (fun current => { current with status := .expired }) write

inductive Bootstrap where
  | unconfigured
  | failed
  | hydrated
  deriving DecidableEq

/-- The rows that `model_validate` accepts. -/
def ProposalStore.accepted (validates : CalibrationProposal → Bool) (store : ProposalStore) :
    Dict Uuid CalibrationProposal :=
  store.rows.collect fun row => if validates row then some row else none

theorem get?_accepted {validates : CalibrationProposal → Bool} {store : ProposalStore} {id : Uuid}
    {proposal : CalibrationProposal} : (store.accepted validates).get? id = some proposal ↔
      store.rows.get? id = some proposal ∧ validates proposal = true := by
  unfold ProposalStore.accepted
  rw [Dict.get?_collect, Option.bind_eq_some_iff]
  constructor
  · rintro ⟨row, hrow, hsome⟩
    split at hsome
    · next hvalid =>
      rw [← Option.some.inj hsome]
      exact ⟨hrow, hvalid⟩
    · cases hsome
  · rintro ⟨hrow, hvalid⟩
    exact ⟨proposal, hrow, if_pos hvalid⟩

def restart (validates : CalibrationProposal → Bool) (store : ProposalStore) : Bootstrap → ProposalStore
  | .unconfigured | .failed => { ProposalStore.fresh true with rows := store.rows, rowsFiled := store.rowsFiled }
  | .hydrated =>
    { byId := store.accepted validates
      disabled := false
      rows := store.rows
      filed := fun id proposal hget => store.rowsFiled id proposal (get?_accepted.mp hget).1
      rowsFiled := store.rowsFiled }

inductive ProposalOp where
  | save (proposal : CalibrationProposal) (write : WriteOutcome)
  | approve (id : Uuid) (approver : Str) (now : ℤ) (write : WriteOutcome)
  | reject (id : Uuid) (rejecter reason : Str) (now : ℤ) (write : WriteOutcome)
  | markApplied (id : Uuid) (appliedPolicyVersion : Str) (now : ℤ) (write : WriteOutcome)
  | markRolledBack (id : Uuid) (rolledBackBy : Str) (now : ℤ) (write : WriteOutcome)
  | markExpired (id : Uuid) (write : WriteOutcome)
  | restart (bootstrap : Bootstrap)

def ProposalOp.apply (validates : CalibrationProposal → Bool) (store : ProposalStore) : ProposalOp → ProposalStore
  | .save proposal write => after (Stores.saveProposal proposal write) store
  | .approve id approver now write => after (Stores.approve id approver now write) store
  | .reject id rejecter reason now write => after (Stores.reject id rejecter reason now write) store
  | .markApplied id version now write => after (Stores.markApplied id version now write) store
  | .markRolledBack id rolledBackBy now write => after (Stores.markRolledBack id rolledBackBy now write) store
  | .markExpired id write => after (Stores.markExpired id write) store
  | .restart bootstrap => Stores.restart validates store bootstrap

end TexGovernance.Stores

namespace TexGovernance.Stores
open PyStr PyRepr PyDict Actions Relation
open Engine (Uuid)

inductive Leads : ProposalStatus → ProposalStatus → Prop where
  | approve : Leads .pending .approved
  | reject : Leads .pending .rejected
  | expire : Leads .pending .expired
  | apply : Leads .approved .applied
  | rollBack : Leads .applied .rolledBack

def ProposalStatus.rank : ProposalStatus → ℕ
  | .pending => 0
  | .approved | .rejected | .expired => 1
  | .applied => 2
  | .rolledBack => 3

theorem Leads.rank_lt {a b : ProposalStatus} (h : Leads a b) : a.rank < b.rank := by
  cases h with
  | _ => decide

theorem rank_lt_of_transGen {a b : ProposalStatus} (h : TransGen Leads a b) : a.rank < b.rank := by
  induction h with
  | single h => exact h.rank_lt
  | tail _ h ih => exact ih.trans h.rank_lt

theorem rank_le_of_reflTransGen {a b : ProposalStatus} (h : ReflTransGen Leads a b) : a.rank ≤ b.rank := by
  induction h with
  | refl => exact le_rfl
  | tail _ h ih => exact ih.trans h.rank_lt.le

theorem eq_of_leads_back {a b : ProposalStatus} (h : ReflTransGen Leads a b) (hback : ReflTransGen Leads b a) :
    a = b := by
  cases reflTransGen_iff_eq_or_transGen.mp h with
  | inl hsame => exact hsame.symm
  | inr hfurther =>
    have hless := rank_lt_of_transGen hfurther
    have hnot := rank_le_of_reflTransGen hback
    omega

theorem eq_of_rejected_leads {b : ProposalStatus} (h : ReflTransGen Leads .rejected b) : b = .rejected := by
  induction h with
  | refl => rfl
  | tail _ h ih =>
    rw [ih] at h
    cases h

structure IsPath (seen : List ProposalStatus) : Prop where
  start : ∀ first ∈ seen.head?, first = .pending
  steps : seen.IsChain (ReflGen Leads)

namespace IsPath

variable {seen more : List ProposalStatus}

theorem nil : IsPath [] := ⟨nofun, List.isChain_nil⟩

theorem singleton : IsPath [.pending] where
  start first hfirst := by
    cases hfirst
    rfl
  steps := List.isChain_singleton _

theorem of_append (h : IsPath (seen ++ more)) : IsPath seen where
  start first hfirst := h.start first (by
    cases seen with
    | nil => cases hfirst
    | cons a seen => exact hfirst)
  steps := (List.isChain_append.mp h.steps).1

theorem concat {last next : ProposalStatus} (h : IsPath seen) (hlast : seen.getLast? = some last)
    (hnext : ReflGen Leads last next) : IsPath (seen ++ [next]) where
  start first hfirst := h.start first (by
    cases seen with
    | nil => cases hlast
    | cons a seen => exact hfirst)
  steps := by
    refine List.isChain_append.mpr ⟨h.steps, List.isChain_singleton _, ?_⟩
    intro a ha b hb
    cases hlast.symm.trans ha
    cases hb
    exact hnext

theorem leads_of_concat {last next : ProposalStatus} (h : IsPath (seen ++ [next]))
    (hlast : seen.getLast? = some last) : ReflTransGen Leads last next :=
  ((List.isChain_append.mp h.steps).2.2 last hlast next rfl).to_reflTransGen

theorem reaches {before between rest : List ProposalStatus} {a b : ProposalStatus}
    (h : IsPath (before ++ a :: between ++ b :: rest)) : ReflTransGen Leads a b := by
  have hpairwise : (before ++ a :: between ++ b :: rest).Pairwise (ReflTransGen Leads) :=
    List.isChain_iff_pairwise.mp (h.steps.imp fun _ _ hab => hab.to_reflTransGen)
  rw [List.append_assoc, List.pairwise_append] at hpairwise
  exact List.rel_of_pairwise_cons hpairwise.2.1 (List.mem_append_right _ List.mem_cons_self)

theorem enters_once {before between rest : List ProposalStatus} {status other : ProposalStatus}
    (h : IsPath (before ++ status :: between ++ other :: status :: rest)) : other = status := by
  have hthere : ReflTransGen Leads status other := h.reaches
  have hback : ReflTransGen Leads other status := by
    have hlater : IsPath ((before ++ status :: between) ++ other :: [] ++ status :: rest) := by
      rw [List.append_assoc (before ++ status :: between)]
      exact h
    exact hlater.reaches
  exact eq_of_leads_back hback hthere

theorem not_applied_of_rejected {before between rest : List ProposalStatus} :
    ¬ IsPath (before ++ .rejected :: between ++ .applied :: rest) :=
  fun h => ProposalStatus.noConfusion (eq_of_rejected_leads h.reaches)

end IsPath

def ProposalStore.statusOf (store : ProposalStore) (id : Uuid) : Option ProposalStatus :=
  (store.get id).map CalibrationProposal.status

def Transitions (store store' : ProposalStore) : Prop :=
  ∃ current updated write, store.get current.proposalId = some current ∧
    updated.proposalId = current.proposalId ∧ Leads current.status updated.status ∧
    store' = store.put updated write

def StaysOrMoves (store store' : ProposalStore) : Prop := store' = store ∨ Transitions store store'

section Step

variable {store : ProposalStore} {write : WriteOutcome}

theorem after_transition {id : Uuid} {required : ProposalStatus}
    {update : CalibrationProposal → CalibrationProposal}
    (hid : ∀ current, (update current).proposalId = current.proposalId)
    (hleads : ∀ current, Leads required (update current).status) :
    StaysOrMoves store (after (transition id required update write) store) := by
  unfold transition
  cases hget : store.get id with
  | none =>
    have hrequire : require id store = .error .other store := by
      unfold require
      rw [hget]
    exact .inl (after_of_error (bind_error hrequire _))
  | some current =>
    have hrequire : require id store = .ok current store := by
      unfold require
      rw [hget]
    have hfiled : current.proposalId = id := store.filed id current hget
    rw [after_bind hrequire]
    by_cases hstatus : current.status = required
    · refine .inr ⟨current, update current, write, by rw [hfiled, hget], hid current, ?_, ?_⟩
      · rw [hstatus]
        exact hleads current
      · rw [if_neg (not_not_intro hstatus)]
        rfl
    · rw [if_pos hstatus]
      exact .inl rfl

theorem after_nonBlank {α : Type} {text : Str} {f : Str → ProposalAct α}
    (h : ∀ normalized, StaysOrMoves store (after (f normalized) store)) :
    StaysOrMoves store (after (nonBlank text >>= f) store) := by
  unfold nonBlank
  split
  · exact .inl rfl
  · exact h _

theorem apply_cases (validates : CalibrationProposal → Bool) (store : ProposalStore) (op : ProposalOp) :
    (∃ proposal write, op = .save proposal write) ∨ (∃ bootstrap, op = .restart bootstrap) ∨
      StaysOrMoves store (op.apply validates store) := by
  cases op with
  | save proposal write => exact .inl ⟨proposal, write, rfl⟩
  | restart bootstrap => exact .inr (.inl ⟨bootstrap, rfl⟩)
  | approve id approver now write =>
    exact .inr (.inr (after_nonBlank fun _ =>
      after_transition (fun _ => rfl) fun _ => .approve))
  | reject id rejecter reason now write =>
    exact .inr (.inr (after_nonBlank fun _ => after_nonBlank fun _ =>
      after_transition (fun _ => rfl) fun _ => .reject))
  | markApplied id version now write =>
    exact .inr (.inr (after_nonBlank fun _ =>
      after_transition (fun _ => rfl) fun _ => .apply))
  | markRolledBack id rolledBackBy now write =>
    exact .inr (.inr (after_nonBlank fun _ =>
      after_transition (fun _ => rfl) fun _ => .rollBack))
  | markExpired id write =>
    exact .inr (.inr (after_transition (fun _ => rfl) fun _ => .expire))

theorem statusOf_put (proposal : CalibrationProposal) (id : Uuid) :
    (store.put proposal write).statusOf id =
      if id = proposal.proposalId then some proposal.status else store.statusOf id := by
  unfold ProposalStore.statusOf
  rw [ProposalStore.get_put]
  split
  · rfl
  · rfl

theorem rows_put {proposal row : CalibrationProposal}
    (h : (store.put proposal write).rows.get? proposal.proposalId = some row) :
    row = proposal ∨ store.rows.get? proposal.proposalId = some row := by
  unfold ProposalStore.put ProposalStore.rowsAfter at h
  simp only at h
  split at h
  · exact .inr h
  · rw [Dict.get?_set, if_pos rfl] at h
    exact .inl (Option.some.inj h).symm

theorem rows_put_of_ne {proposal : CalibrationProposal} {id : Uuid} (h : id ≠ proposal.proposalId) :
    (store.put proposal write).rows.get? id = store.rows.get? id := by
  unfold ProposalStore.put ProposalStore.rowsAfter
  simp only
  split
  · rfl
  · rw [Dict.get?_set, if_neg h]

theorem statusOf_restart {validates : CalibrationProposal → Bool} {id : Uuid} {status : ProposalStatus} :
    (restart validates store .hydrated).statusOf id = some status ↔
      ∃ row, store.rows.get? id = some row ∧ validates row = true ∧ row.status = status := by
  unfold ProposalStore.statusOf
  rw [Option.map_eq_some_iff]
  exact exists_congr fun row => (and_congr_left' get?_accepted).trans and_assoc

end Step

end TexGovernance.Stores
