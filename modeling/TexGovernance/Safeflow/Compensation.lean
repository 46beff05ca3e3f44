import TexGovernance.Safeflow.StepCases

/-!
# Rollback undoes what was done

The steps that a run completed with an inverse, in order, are what a rollback
owes.
-/

namespace TexGovernance.Safeflow
open PyStr PyBytes PyCodec PyRepr PyDict Actions

variable {σ World Val : Type}

structure Done (Val : Type) where
  stepId : Str
  inverseOp : Str
  tool : Str
  args : Dict Str Val
  result : Val

def Done.undo (d : Done Val) : Undo Val := ⟨d.stepId, d.inverseOp, d.tool, d.args, some d.result⟩

/-- The last completed step with the id of `d`. -/
def latest (done : List (Done Val)) (d : Done Val) : Done Val :=
  (done.reverse.find? fun d' => d'.stepId = d.stepId).getD d

def Done.stashedUndo (done : List (Done Val)) (d : Done Val) : Undo Val :=
  ⟨d.stepId, d.inverseOp, d.tool, (latest done d).args, some (latest done d).result⟩

inductive Event (Val : Type) where
  | begin_
  | step (call : StepCall Val)
  | commit
  | abort (reason : Str)

section Runs

variable [WAL σ] (p : Platform Val)

/-- The executor after a call, whether it returned or raised. -/
def Event.apply (s : TransactionalExecutor σ World Val) : Event Val → TransactionalExecutor σ World Val
  | .begin_ => after (Safeflow.begin_ p) s
  | .step call => after (Safeflow.step p call) s
  | .commit => after (Safeflow.commit p) s
  | .abort reason => after (Safeflow.abort p reason) s

def Event.done (s : TransactionalExecutor σ World Val) : Event Val → List (Done Val)
  | .step call =>
    match call.inverseOp, Safeflow.step p call s with
    | some op, .ok result _ => [⟨call.stepId, op, call.tool, call.args, result⟩]
    | _, _ => []
  | _ => []

def runEvents : List (Event Val) → TransactionalExecutor σ World Val →
    TransactionalExecutor σ World Val
  | [], s => s
  | e :: rest, s => runEvents rest (e.apply p s)

/-- The steps of a run that completed with an inverse, in order. -/
def doneIn : List (Event Val) → TransactionalExecutor σ World Val → List (Done Val)
  | [], _ => []
  | e :: rest, s => e.done p s ++ doneIn rest (e.apply p s)

end Runs

def compensable (step : TransactionStep) : Option (Str × Str × Str) :=
  match step.inverseOp, step.error with
  | some op, none => some (step.stepId, op, step.tool)
  | _, _ => none

structure Tracks (inverses : Dict Str (InverseFn World Val)) (done : List (Done Val))
    (s : TransactionalExecutor σ World Val) : Prop where
  inverses : s.inverses = inverses
  steps : s.txn.steps.filterMap compensable = done.map fun d => (d.stepId, d.inverseOp, d.tool)
  stash : ∀ id, s.inverseArgs.get? id =
    (done.reverse.find? fun d => d.stepId = id).map fun d => ⟨d.tool, d.args, d.result⟩
  registered : s.Registered
  failures : s.txn.state = .pending → s.rollbackFailures = []

variable {inverses : Dict Str (InverseFn World Val)}

theorem undoOf_eq (stash : Dict Str (Stash Val)) (step : TransactionStep) :
    undoOf stash step = (compensable step).map fun key =>
      ⟨key.1, key.2.1, key.2.2, ((stash.get? key.1).map Stash.args).getD Dict.empty,
        (stash.get? key.1).map Stash.result⟩ := by
  unfold undoOf compensable
  cases step.inverseOp with
  | none => rfl
  | some op =>
    cases step.error with
    | none => rfl
    | some e => rfl

theorem find?_latest {done : List (Done Val)} {d : Done Val} (hd : d ∈ done) :
    (done.reverse.find? fun d' => d'.stepId = d.stepId) = some (latest done d) := by
  unfold latest
  cases hfind : done.reverse.find? fun d' => d'.stepId = d.stepId with
  | some d' => rfl
  | none =>
    have hnone := List.find?_eq_none.mp hfind d (List.mem_reverse.mpr hd)
    simp at hnone

theorem Tracks.owed {done : List (Done Val)} {s : TransactionalExecutor σ World Val}
    (h : Tracks inverses done s) : s.owed = done.reverse.map (Done.stashedUndo done) := by
  have hundo : undoOf s.inverseArgs = fun step => (compensable step).map fun key =>
      ⟨key.1, key.2.1, key.2.2, ((s.inverseArgs.get? key.1).map Stash.args).getD Dict.empty,
        (s.inverseArgs.get? key.1).map Stash.result⟩ := funext (undoOf_eq s.inverseArgs)
  unfold TransactionalExecutor.owed
  rw [List.filterMap_reverse, hundo, ← List.map_filterMap, h.steps, List.map_map, ← List.map_reverse]
  refine List.map_congr_left fun d hd => ?_
  have hstash := h.stash d.stepId
  rw [find?_latest (List.mem_reverse.mp hd), Option.map_some] at hstash
  simp only [Function.comp_apply, hstash]
  rfl

theorem Tracks.owed_registered {done : List (Done Val)} {s : TransactionalExecutor σ World Val}
    (h : Tracks inverses done s) : ∀ u ∈ s.owed, ∃ inverse, s.inverses.get? u.inverseOp = some inverse := by
  intro u hu
  obtain ⟨step, hstep, hundo⟩ := List.mem_filterMap.mp hu
  exact h.registered step (List.mem_reverse.mp hstep) _ (undoOf_inverseOp hundo)

theorem Tracks.of_sameSteps {done : List (Done Val)} {s s' : TransactionalExecutor σ World Val}
    (h : Tracks inverses done s) (hsame : SameSteps s s')
    (hfailures : s'.txn.state = .pending → s'.rollbackFailures = []) : Tracks inverses done s' := by
  refine ⟨hsame.inverses.trans h.inverses, ?_, ?_, ?_, hfailures⟩
  · rw [hsame.steps]
    exact h.steps
  · rw [hsame.inverseArgs]
    exact h.stash
  · unfold TransactionalExecutor.Registered
    rw [hsame.steps, hsame.inverses]
    exact h.registered

theorem Tracks.of_unrecorded {done : List (Done Val)} {s s' : TransactionalExecutor σ World Val}
    (h : Tracks inverses done s) (hsame : Unrecorded s s') : Tracks inverses done s' := by
  refine h.of_sameSteps ⟨?_, hsame.inverses, hsame.tools, hsame.inverseArgs⟩ ?_
  · rw [hsame.txn]
  · rw [hsame.txn, hsame.rollbackFailures]
    exact h.failures

theorem Tracks.start {s : TransactionalExecutor σ World Val} (hinverses : s.inverses = inverses)
    (hsteps : s.txn.steps = []) (hstash : s.inverseArgs = Dict.empty)
    (hfailures : s.rollbackFailures = []) : Tracks inverses [] s := by
  refine ⟨hinverses, ?_, ?_, ?_, fun _ => hfailures⟩
  · rw [hsteps]
    rfl
  · intro id
    rw [hstash]
    rfl
  · unfold TransactionalExecutor.Registered
    rw [hsteps]
    intro step hstep
    cases hstep

theorem Recorded.registered {s t : TransactionalExecutor σ World Val} {record : TransactionStep}
    (hrecorded : Recorded record s t) (h : s.Registered)
    (hop : ∀ op ∈ record.inverseOp, ∃ inverse, s.inverses.get? op = some inverse) : t.Registered := by
  unfold TransactionalExecutor.Registered
  rw [hrecorded.txn, hrecorded.inverses]
  intro step hstep
  rcases List.mem_append.mp hstep with hstep | hstep
  · exact h step hstep
  · rw [List.mem_singleton.mp hstep]
    exact hop

theorem Tracks.failed {done : List (Done Val)} {s t : TransactionalExecutor σ World Val}
    (h : Tracks inverses done s) {record : TransactionStep} (hrecorded : Recorded record s t)
    (herror : record.error ≠ none) (hstash : t.inverseArgs = s.inverseArgs)
    (hop : ∀ op ∈ record.inverseOp, ∃ inverse, s.inverses.get? op = some inverse) :
    Tracks inverses done t := by
  have hnone : compensable record = none := by
    unfold compensable
    split
    · next herr => exact absurd herr herror
    · rfl
  refine ⟨hrecorded.inverses.trans h.inverses, ?_, ?_, ?_, ?_⟩
  · rw [hrecorded.txn]
    simp only [Transaction.withStep, List.filterMap_append, List.filterMap_cons_none hnone,
      List.filterMap_nil, List.append_nil]
    exact h.steps
  · rw [hstash]
    exact h.stash
  · exact hrecorded.registered h.registered hop
  · rw [hrecorded.txn, hrecorded.rollbackFailures]
    exact h.failures

theorem Tracks.completed {done : List (Done Val)} {s t : TransactionalExecutor σ World Val}
    (h : Tracks inverses done s) {call : StepCall Val} {record : TransactionStep} {result : Val}
    (hof : RecordOf call record) (hrecorded : Recorded record s t) (herror : record.error = none)
    (hstash : t.inverseArgs = stashed call result s.inverseArgs)
    (hop : ∀ op ∈ record.inverseOp, ∃ inverse, s.inverses.get? op = some inverse) :
    Tracks inverses (done ++ (call.inverseOp.map fun op =>
      (⟨call.stepId, op, call.tool, call.args, result⟩ : Done Val)).toList) t := by
  have hkey : compensable record = call.inverseOp.map fun op => (call.stepId, op, call.tool) := by
    unfold compensable
    rw [herror, hof.inverseOp, hof.stepId, hof.tool]
    cases call.inverseOp with
    | none => rfl
    | some op => rfl
  refine ⟨hrecorded.inverses.trans h.inverses, ?_, ?_, ?_, ?_⟩
  · rw [hrecorded.txn, List.map_append, ← h.steps]
    simp only [Transaction.withStep, List.filterMap_append]
    refine congrArg (_ ++ ·) ?_
    cases hcall : call.inverseOp with
    | none =>
      rw [hcall] at hkey
      exact List.filterMap_cons_none hkey
    | some op =>
      rw [hcall] at hkey
      exact List.filterMap_cons_some hkey
  · intro id
    rw [hstash]
    unfold stashed
    cases call.inverseOp with
    | none =>
      rw [Option.map_none, Option.toList_none, List.append_nil]
      exact h.stash id
    | some op =>
      rw [Option.map_some, Option.toList_some, List.reverse_append, List.reverse_singleton,
        List.singleton_append, List.find?_cons, Dict.get?_set]
      by_cases hid : id = call.stepId
      · rw [if_pos hid, hid]
        simp
      · rw [if_neg hid, h.stash id]
        have hne : ¬call.stepId = id := fun heq => hid heq.symm
        simp [hne]
  · exact hrecorded.registered h.registered hop
  · rw [hrecorded.txn, hrecorded.rollbackFailures]
    exact h.failures

section Calls

variable [WAL σ] [WAL.Reliable σ] {p : Platform Val} {done : List (Done Val)}
  {s : TransactionalExecutor σ World Val}

theorem begin_logged (s : TransactionalExecutor σ World Val) : Logged s (after (begin_ p) s) := by
  have hfit : TextsFit none none none none none (some (txt "transaction begin")) := by decide
  obtain ⟨t, hrun, hlog⟩ := appendWal_ok p .begin_ s hfit
  have hbegin : begin_ p s = .ok () t := hrun
  rw [after_of_ok hbegin]
  exact hlog

theorem commit_pending (hpending : s.txn.state = .pending) :
    ∃ t, commit p s = (outcome : Exec σ World Val _) t ∧ SameSteps s t ∧ t.txn.state = .committed := by
  have hget : (get : Exec σ World Val _) s = .ok s s := rfl
  let marked : TransactionalExecutor σ World Val :=
    { s with
      clockReads := s.clockReads + 1
      txn := s.txn.withState .committed (p.nowMs s.clockReads) none }
  have hfit : TextsFit none none none none none (some (txt "commit")) := by decide
  obtain ⟨t, hrun, hlog⟩ := appendWal_ok p .commit marked hfit
  refine ⟨t, ?_, ⟨?_, hlog.inverses, hlog.tools, hlog.inverseArgs⟩, ?_⟩
  · unfold commit
    rw [bind_ok hget, if_neg (not_not.mpr hpending)]
    change (appendWal p .commit none none none none none (some (txt "commit")) >>= fun _ => outcome)
      marked = _
    rw [bind_ok hrun]
  · rw [hlog.txn]
    rfl
  · rw [hlog.txn]
    rfl

omit [WAL.Reliable σ] in
theorem abort_settled {reason : Str} (hsettled : s.txn.state ≠ .pending) :
    after (abort p reason) s = s := by
  have hget : (get : Exec σ World Val _) s = .ok s s := rfl
  unfold abort
  unfold after
  rw [bind_ok hget]
  cases hstate : s.txn.state with
  | pending => exact absurd hstate hsettled
  | committed => rfl
  | rolledBack => exact after_outcome s
  | failed => exact after_outcome s

omit [WAL.Reliable σ] in
theorem abort_pending {reason : Str} (hpending : s.txn.state = .pending) :
    abort p reason s = abortPending p reason s := by
  have hget : (get : Exec σ World Val _) s = .ok s s := rfl
  unfold abort
  rw [bind_ok hget, hpending]

theorem Tracks.abort (h : Tracks inverses done s) (reason : Str) :
    Tracks inverses done (after (Safeflow.abort p reason) s) := by
  by_cases hpending : s.txn.state = .pending
  · have hafter : after (Safeflow.abort p reason) s = after (abortPending p reason) s := by
      unfold after
      rw [abort_pending hpending]
    obtain ⟨hsame, -, hstate⟩ := abortPending_spec (p := p) reason h.registered (h.failures hpending)
    rw [hafter]
    refine h.of_sameSteps hsame fun hstill => ?_
    rw [hstate] at hstill
    split at hstill
    · cases hstill
    · cases hstill
  · rw [abort_settled hpending]
    exact h

omit [WAL.Reliable σ] in
theorem done_of_error {call : StepCall Val} {e : ExecError} {t : TransactionalExecutor σ World Val}
    (h : step p call s = .error e t) : (Event.step call).done p s = [] := by
  simp only [Event.done, h]
  cases call.inverseOp with
  | none => rfl
  | some op => rfl

omit [WAL.Reliable σ] in
theorem done_of_ok {call : StepCall Val} {result : Val} {t : TransactionalExecutor σ World Val}
    (h : step p call s = .ok result t) : (Event.step call).done p s =
      (call.inverseOp.map fun op =>
        (⟨call.stepId, op, call.tool, call.args, result⟩ : Done Val)).toList := by
  simp only [Event.done, h]
  cases call.inverseOp with
  | none => rfl
  | some op => rfl

theorem Tracks.apply (h : Tracks inverses done s) (e : Event Val) :
    Tracks inverses (done ++ e.done p s) (e.apply p s) := by
  have hnothing : done ++ [] = done := List.append_nil done
  cases e with
  | begin_ =>
    change Tracks inverses (done ++ []) _
    rw [hnothing]
    exact h.of_unrecorded (begin_logged s).unrecorded
  | commit =>
    change Tracks inverses (done ++ []) _
    rw [hnothing]
    by_cases hpending : s.txn.state = .pending
    · obtain ⟨t, hrun, hsame, hstate⟩ := commit_pending (p := p) hpending
      have hafter : Event.commit.apply p s = t := by
        change after (commit p) s = t
        rw [← after_outcome t]
        unfold after
        rw [hrun]
      rw [hafter]
      refine h.of_sameSteps hsame fun hstill => ?_
      rw [hstate] at hstill
      cases hstill
    · have hget : (get : Exec σ World Val _) s = .ok s s := rfl
      have hafter : Event.commit.apply p s = s := by
        change after (commit p) s = s
        unfold commit after
        rw [bind_ok hget, if_pos hpending]
        rfl
      rw [hafter]
      exact h
  | abort reason =>
    change Tracks inverses (done ++ []) _
    rw [hnothing]
    exact h.abort reason
  | step call =>
    rcases step_cases p s call with ⟨e, t, hrun, hsame⟩ |
      ⟨exc, record, t, -, -, herror, hop, hrecorded, hstash, hrun⟩ |
      ⟨result, record, t, hof, herror, hop, hrecorded, hstash, hrun⟩
    · have hafter : (Event.step call).apply p s = t := after_of_error hrun
      rw [done_of_error hrun, hnothing, hafter]
      exact h.of_unrecorded hsame
    · obtain ⟨e, hraise⟩ :=
        bind_throw (β := Val) (Safeflow.abort p (raisedReason p call exc)) (.safeflow exc) t
      rw [← hrun] at hraise
      have hafter : (Event.step call).apply p s =
          after (Safeflow.abort p (raisedReason p call exc)) t := after_of_error hraise
      rw [done_of_error hraise, hnothing, hafter]
      exact (h.failed hrecorded herror hstash hop).abort _
    · have hafter : (Event.step call).apply p s = t := after_of_ok hrun
      rw [done_of_ok hrun, hafter]
      exact h.completed hof hrecorded herror hstash hop

theorem tracks_runEvents (h : Tracks inverses done s) (events : List (Event Val)) :
    Tracks inverses (done ++ doneIn p events s) (runEvents p events s) := by
  induction events generalizing done s with
  | nil =>
    rw [doneIn, List.append_nil]
    exact h
  | cons e rest ih =>
    rw [doneIn, ← List.append_assoc]
    exact ih (h.apply e)

end Calls

theorem tracks_make [WAL σ] {p : Platform Val} {txnId : Str} {wal : σ}
    {tools : Dict Str (ToolFn World Val)} {world : World} {start : TransactionalExecutor σ World Val}
    (h : TransactionalExecutor.make p txnId wal inverses tools world = .ok start) :
    Tracks inverses [] start := by
  unfold TransactionalExecutor.make at h
  split at h
  · cases h
  · split at h
    · cases h
      exact Tracks.start rfl rfl rfl rfl
    · cases h

/-- How a pending transaction ends: by an abort, or by a step whose tool raises
the text `exc`. -/
inductive Ending (Val : Type) where
  | abort (reason : Str)
  | raising (call : StepCall Val) (exc : Str)

section Endings

variable [WAL σ] (p : Platform Val)

def Ending.apply (s : TransactionalExecutor σ World Val) : Ending Val → TransactionalExecutor σ World Val
  | .abort reason => after (Safeflow.abort p reason) s
  | .raising call _ => after (Safeflow.step p call) s

/-- The ending happens in state `s`, and the rollback starts in world `w`. -/
inductive Ends (s : TransactionalExecutor σ World Val) : Ending Val → World → Prop where
  | abort (reason : Str) (hpending : s.txn.state = .pending) : Ends s (.abort reason) s.world
  | raising {call : StepCall Val} {exc argsHash : Str} {impl : ToolFn World Val} {w : World}
      (hadmitted : Admitted p s call argsHash impl)
      (hraise : impl s.world call.args = (w, .error exc)) : Ends s (.raising call exc) w

def Ending.Recordable : Ending Val → Prop
  | .abort reason => Plain (reason.take 300)
  | .raising call exc => Safeflow.Recordable call (some exc)

/-- Exactly the completed steps were undone, the last one first. -/
structure Compensated (done : List (Done Val)) (s s' : TransactionalExecutor σ World Val) : Prop where
  undone : ∃ calls, s'.inverseCalls = s.inverseCalls ++ calls ∧
    calls.map InverseCall.request = done.reverse.map Done.undo ∧
    ((∀ c ∈ calls, c.error = none) → s'.txn.state = .rolledBack) ∧
    (¬(∀ c ∈ calls, c.error = none) → s'.txn.state = .failed)
  settled : ∀ reason, after (Safeflow.abort p reason) s' = s'

structure Compensable (done : List (Done Val)) (inverses : Dict Str (InverseFn World Val))
    (w : World) (e : Ending Val) : Prop where
  sameArgs : ∀ d ∈ done, ∀ d' ∈ done, d.stepId = d'.stepId → d.args = d'.args ∧ d.result = d'.result
  recordable : e.Recordable
  noteable : ∀ c ∈ (compensate inverses w (done.reverse.map Done.undo)).dropLast, c.Noteable

end Endings

section Exact

variable [WAL σ] [WAL.Reliable σ] {p : Platform Val} {done : List (Done Val)}
  {s : TransactionalExecutor σ World Val}

theorem latest_mem {d : Done Val} (hd : d ∈ done) :
    latest done d ∈ done ∧ (latest done d).stepId = d.stepId := by
  have hfind := find?_latest hd
  have hmem := List.mem_of_find?_eq_some hfind
  have hid := List.find?_some hfind
  exact ⟨List.mem_reverse.mp hmem, by simpa using hid⟩

theorem stashedUndo_eq_iff : done.reverse.map (Done.stashedUndo done) = done.reverse.map Done.undo ↔
    ∀ d ∈ done, ∀ d' ∈ done, d.stepId = d'.stepId → d.args = d'.args ∧ d.result = d'.result := by
  have hpoint : done.reverse.map (Done.stashedUndo done) = done.reverse.map Done.undo ↔
      ∀ d ∈ done, d.stashedUndo done = d.undo := by
    rw [List.map_inj_left]
    simp only [List.mem_reverse]
  have hown : ∀ d ∈ done, (d.stashedUndo done = d.undo ↔
      (latest done d).args = d.args ∧ (latest done d).result = d.result) := by
    intro d _
    simp [Done.stashedUndo, Done.undo]
  rw [hpoint]
  constructor
  · intro h d hd d' hd' hid
    have hlast := (hown d hd).mp (h d hd)
    have hlast' := (hown d' hd').mp (h d' hd')
    have hsame : latest done d = latest done d' := by
      have hfind := find?_latest hd
      rw [hid, find?_latest hd'] at hfind
      exact (Option.some.inj hfind).symm
    rw [hsame] at hlast
    exact ⟨hlast.1.symm.trans hlast'.1, hlast.2.symm.trans hlast'.2⟩
  · intro h d hd
    obtain ⟨hmem, hid⟩ := latest_mem hd
    exact (hown d hd).mpr (h _ hmem d hd hid)

theorem abort_compensated_iff (h : Tracks inverses done s) (hpending : s.txn.state = .pending) (reason : Str) :
    Compensated p done s (after (abort p reason) s) ↔
      Compensable done s.inverses s.world (.abort reason) := by
  have hafter : after (abort p reason) s = after (abortPending p reason) s := by
    unfold after
    rw [abort_pending hpending]
  obtain ⟨hsame, hcalls, hstate⟩ := abortPending_spec (p := p) reason h.registered (h.failures hpending)
  have howed : s.owedCalls = compensate s.inverses s.world (done.reverse.map (Done.stashedUndo done)) := by
    unfold TransactionalExecutor.owedCalls
    rw [h.owed]
  have hrequests : s.owedCalls.map InverseCall.request = done.reverse.map (Done.stashedUndo done) := by
    rw [← h.owed]
    exact compensate_requests h.owed_registered s.world
  rw [hafter]
  constructor
  · rintro ⟨⟨calls, hnew, hown, hclean, -⟩, -⟩
    rw [hcalls, List.append_cancel_left_eq] at hnew
    have hreason : Plain (reason.take 300) := by
      by_contra hreason
      rw [if_neg hreason] at hnew
      rw [if_neg (fun hboth => hreason hboth.1)] at hstate
      rw [← hnew] at hclean
      rw [hclean (by simp)] at hstate
      cases hstate
    rw [if_pos hreason] at hnew
    have hlength : (performed s.owedCalls).length = s.owedCalls.length := by
      have hown' := congrArg List.length hown
      have hrequests' := congrArg List.length hrequests
      simp only [List.length_map, List.length_reverse] at hown' hrequests'
      rw [hnew]
      omega
    have hall : performed s.owedCalls = s.owedCalls :=
      (performed_isPrefix s.owedCalls).eq_of_length hlength
    rw [hall] at hnew
    have hargs : done.reverse.map (Done.stashedUndo done) = done.reverse.map Done.undo := by
      rw [← hrequests, hnew, hown]
    refine ⟨stashedUndo_eq_iff.mp hargs, hreason, ?_⟩
    rw [← hargs, ← howed]
    exact (performed_eq_iff s.owedCalls).mp hall
  · rintro ⟨hargs, hreason, hnoteable⟩
    have hundo := stashedUndo_eq_iff.mpr hargs
    rw [← hundo, ← howed, ← performed_eq_iff] at hnoteable
    have hreason' : Plain (reason.take 300) := hreason
    rw [if_pos hreason', hnoteable] at hcalls
    refine ⟨⟨s.owedCalls, hcalls, hrequests.trans hundo, ?_, ?_⟩, fun again => abort_settled ?_⟩
    · intro hclean
      rw [hstate, if_pos ⟨hreason', hclean⟩]
    · intro hfailed
      rw [hstate, if_neg (fun hboth => hfailed hboth.2)]
    · rw [hstate]
      split
      · exact TransactionState.noConfusion
      · exact TransactionState.noConfusion

omit [WAL σ] [WAL.Reliable σ] in
theorem plain_raisedReason_front (p : Platform Val) (call : StepCall Val) :
    Plain (txt "step " ++ p.repr call.stepId ++ txt " raised: ") :=
  ((plain_txt _).append (plain_repr p.isprintable p.surrogate_unprintable _)).append (plain_txt _)

theorem plain_take_raisedReason {call : StepCall Val} {exc : Str} (h : Plain (exc.take 1000)) :
    Plain ((raisedReason p call exc).take 300) := by
  have hfront := plain_raisedReason_front p call
  unfold raisedReason
  rw [List.take_append]
  intro c hc
  rcases List.mem_append.mp hc with hc | hc
  · exact hfront c (List.mem_of_mem_take hc)
  · refine h c (List.take_subset_take_left exc ?_ hc)
    omega

theorem abort_recordable_raised {call : StepCall Val} {exc : Str}
    (hrecord : Recordable call (some exc)) :
    (Ending.abort (raisedReason p call exc) : Ending Val).Recordable :=
  plain_take_raisedReason (hrecord.2.2 exc rfl)

theorem raising_compensated_iff (h : Tracks inverses done s) {call : StepCall Val} {exc argsHash : Str}
    {impl : ToolFn World Val} {w : World} (hadmitted : Admitted p s call argsHash impl)
    (hraise : impl s.world call.args = (w, .error exc)) :
    Compensated p done s (after (step p call) s) ↔
      Compensable done s.inverses w (.raising call exc) := by
  by_cases hrecord : Recordable call (some exc)
  · obtain ⟨record, t, hof, herror, hrecorded, hstash, hworld, hrun⟩ :=
      step_raises hadmitted hraise hrecord
    obtain ⟨e, hthrow⟩ :=
      bind_throw (β := Val) (Safeflow.abort p (raisedReason p call exc)) (.safeflow exc) t
    rw [← hrun] at hthrow
    have herror' : record.error ≠ none := by
      rw [herror]
      exact Option.some_ne_none _
    have htracks := h.failed hrecorded herror' hstash (hadmitted.registered hof)
    have hpending : t.txn.state = .pending := by
      rw [hrecorded.txn]
      exact hadmitted.pending
    have habort := abort_compensated_iff (p := p) htracks hpending (raisedReason p call exc)
    have hfrom : ∀ u, Compensated p done s u ↔ Compensated p done t u := by
      intro u
      constructor
      · rintro ⟨hundone, hsettled⟩
        rw [← hrecorded.inverseCalls] at hundone
        exact ⟨hundone, hsettled⟩
      · rintro ⟨hundone, hsettled⟩
        rw [hrecorded.inverseCalls] at hundone
        exact ⟨hundone, hsettled⟩
    rw [after_of_error hthrow, hfrom, habort, hrecorded.inverses, hworld]
    constructor
    · rintro ⟨hargs, -, hnoteable⟩
      exact ⟨hargs, hrecord, hnoteable⟩
    · rintro ⟨hargs, -, hnoteable⟩
      exact ⟨hargs, abort_recordable_raised hrecord, hnoteable⟩
  · obtain ⟨t, hrun, hsame⟩ := step_raises_unrecordable hadmitted hraise hrecord
    refine iff_of_false ?_ fun hcondition => hrecord hcondition.recordable
    rw [after_of_error hrun]
    rintro ⟨⟨calls, -, -, hclean, hfailed⟩, -⟩
    have hpending : t.txn.state = .pending := by
      rw [hsame.txn]
      exact hadmitted.pending
    by_cases hall : ∀ c ∈ calls, c.error = none
    · have hrolled := hclean hall
      rw [hpending] at hrolled
      cases hrolled
    · have hstate := hfailed hall
      rw [hpending] at hstate
      cases hstate

end Exact

/-- A rollback undoes exactly the completed steps, with their own arguments, if
and only if no step id was used again with others, the ending can be written
down, and only the last inverse may raise a text that the log does not take. -/
theorem rollback_exact_iff [WAL σ] [WAL.Reliable σ] (p : Platform Val) (txnId : Str) (wal : σ)
    (inverses : Dict Str (InverseFn World Val)) (tools : Dict Str (ToolFn World Val)) (world w : World)
    (start : TransactionalExecutor σ World Val)
    (hstart : TransactionalExecutor.make p txnId wal inverses tools world = .ok start)
    (events : List (Event Val)) (e : Ending Val) (hends : Ends p (runEvents p events start) e w) :
    Compensated p (doneIn p events start) (runEvents p events start)
        (e.apply p (runEvents p events start)) ↔
      Compensable (doneIn p events start) inverses w e := by
  have htracks := tracks_runEvents (p := p) (tracks_make hstart) events
  rw [List.nil_append] at htracks
  cases hends with
  | abort reason hpending =>
    rw [← htracks.inverses]
    exact abort_compensated_iff htracks hpending reason
  | raising hadmitted hraise =>
    rw [← htracks.inverses]
    exact raising_compensated_iff htracks hadmitted hraise

section Sample

def samplePlatform : Platform ℕ where
  isprintable := inRanges [(0x20, 0x7e)]
  surrogate_unprintable := by
    intro c hc
    simp only [isSurrogate, inRanges, List.any_cons, List.any_nil, Bool.or_false, Bool.and_eq_true,
      decide_eq_true_eq] at hc
    simp only [inRanges, List.any_cons, List.any_nil, Bool.or_false, Bool.and_eq_false_iff,
      decide_eq_false_iff_not]
    omega
  nowMs n := n
  encode n := .int n
  reprVal n := natText n

/-- `put(x=..)` returns what it is given. -/
def sampleTools : Dict Str (ToolFn Unit ℕ) :=
  Dict.empty.set (txt "put") fun w args => (w, .ok ((args.get? (txt "x")).getD 0))

def sampleInverses : Dict Str (InverseFn Unit ℕ) :=
  Dict.empty.set (txt "unput") fun w _ _ _ => (w, .ok ())

def putCall (id : String) (x : ℕ) : StepCall ℕ :=
  ⟨txt id, txt "put", Dict.empty.set (txt "x") x, some (txt "unput")⟩

def putDone (id : String) (x : ℕ) : Done ℕ :=
  ⟨txt id, txt "unput", txt "put", Dict.empty.set (txt "x") x, x⟩

def sampleExecutor : TransactionalExecutor InMemoryWAL Unit ℕ :=
  ⟨.new ⟨txt "t1", by decide, by decide⟩ 0, ⟨[]⟩, sampleInverses, sampleTools, Dict.empty, [], (), 1, []⟩

theorem put_hashable {x : ℕ} (hx : x = 1 ∨ x = 2) :
    (∃ argsHash, hashArgs samplePlatform (Dict.empty.set (txt "x") x) = .ok argsHash) ∧
      ∃ resultHash, hashResult samplePlatform x = .ok resultHash := by
  have hok : ∀ e : Except PyErr Str, e.isOk = true → ∃ digest, e = .ok digest := by
    intro e he
    cases e with
    | ok digest => exact ⟨digest, rfl⟩
    | error e => cases he
  rcases hx with rfl | rfl
  · exact ⟨hok _ (by decide), hok _ (by decide)⟩
  · exact ⟨hok _ (by decide), hok _ (by decide)⟩

theorem put_completes {id : String} {x : ℕ} (hid : RequiredText 64 (txt id)) (hx : x = 1 ∨ x = 2)
    {s : TransactionalExecutor InMemoryWAL Unit ℕ} (hpending : s.txn.state = .pending)
    (hinverses : s.inverses = sampleInverses) (htools : s.tools = sampleTools) :
    (Event.step (putCall id x)).done samplePlatform s = [putDone id x] ∧
      ((Event.step (putCall id x)).apply samplePlatform s).txn.state = .pending ∧
      ((Event.step (putCall id x)).apply samplePlatform s).inverses = sampleInverses ∧
      ((Event.step (putCall id x)).apply samplePlatform s).tools = sampleTools := by
  obtain ⟨⟨argsHash, hargs⟩, resultHash, hresult⟩ := put_hashable hx
  have hadmitted : Admitted samplePlatform s (putCall id x) argsHash
      fun w args => (w, .ok ((args.get? (txt "x")).getD 0)) := by
    have hknown : ∀ op ∈ some (txt "unput"), op ∈ sampleInverses.keys := by decide
    have htool : fitsField 128 (txt "put") := by decide
    have hinverse : OptionalFits 128 (some (txt "unput")) := by decide
    refine ⟨hpending, ?_, ?_, hargs, hid.2, htool, hinverse⟩
    · rw [hinverses]
      exact hknown
    · rw [htools]
      rfl
  have hreturn : (s.world, Except.ok (((putCall id x).args.get? (txt "x")).getD 0)) =
      ((s.world, .ok x) : Unit × Except Str ℕ) := by
    simp [putCall]
  have htool : txt "put" ≠ [] := by decide
  have hrecord : Recordable (putCall id x) none := ⟨hid.1, htool, by simp⟩
  obtain ⟨record, t, -, -, hrecorded, -, -, hrun⟩ :=
    step_returns hadmitted hreturn hresult hrecord
  have happly : (Event.step (putCall id x)).apply samplePlatform s = t := after_of_ok hrun
  refine ⟨done_of_ok hrun, ?_, ?_, ?_⟩
  · rw [happly, hrecorded.txn]
    exact hpending
  · rw [happly, hrecorded.inverses]
    exact hinverses
  · rw [happly, hrecorded.tools]
    exact htools

theorem put_twice {a b : String} (ha : RequiredText 64 (txt a)) (hb : RequiredText 64 (txt b)) :
    doneIn samplePlatform [.step (putCall a 1), .step (putCall b 2)] sampleExecutor =
        [putDone a 1, putDone b 2] ∧
      (runEvents samplePlatform [.step (putCall a 1), .step (putCall b 2)]
        sampleExecutor).txn.state = .pending := by
  obtain ⟨hdone, hpending, hinverses, htools⟩ :=
    put_completes (s := sampleExecutor) ha (.inl rfl) rfl rfl rfl
  obtain ⟨hdone', hpending', -, -⟩ := put_completes hb (.inr rfl) hpending hinverses htools
  refine ⟨?_, hpending'⟩
  simp only [doneIn, hdone, hdone', List.append_nil]
  rfl

theorem rollback_exact_sample :
    Compensated samplePlatform [putDone "a" 1, putDone "b" 2]
      (runEvents samplePlatform [.step (putCall "a" 1), .step (putCall "b" 2)] sampleExecutor)
      ((Ending.abort (txt "stop")).apply samplePlatform
        (runEvents samplePlatform [.step (putCall "a" 1), .step (putCall "b" 2)] sampleExecutor)) := by
  obtain ⟨hdone, hpending⟩ := put_twice (a := "a") (b := "b") (by decide) (by decide)
  have hexact := rollback_exact_iff samplePlatform (txt "t1") ⟨[]⟩ sampleInverses sampleTools () _
    sampleExecutor rfl [.step (putCall "a" 1), .step (putCall "b" 2)] (.abort (txt "stop"))
    (.abort _ hpending)
  rw [hdone] at hexact
  have hreason : Plain ((txt "stop").take 300) := by decide
  have hids : txt "a" ≠ txt "b" := by decide
  refine hexact.mpr ⟨?_, hreason, ?_⟩
  · intro d hd d' hd' hid
    rcases List.mem_pair.mp hd with rfl | rfl
    · rcases List.mem_pair.mp hd' with rfl | rfl
      · exact ⟨rfl, rfl⟩
      · exact absurd hid hids
    · rcases List.mem_pair.mp hd' with rfl | rfl
      · exact absurd hid.symm hids
      · exact ⟨rfl, rfl⟩
  · intro c hc
    have hcalls : ∀ w, ∀ c ∈ compensate sampleInverses w
        ([putDone "a" 1, putDone "b" 2].reverse.map Done.undo), c.error = none := by
      intro w
      simp [compensate, sampleInverses, putDone, Done.undo, undoCall, errorText]
    intro text htext
    rw [hcalls _ c (List.dropLast_subset _ hc)] at htext
    cases htext

/-- Two steps of one id: the first one is undone with the arguments of the
second. -/
theorem repeated_id_undone_wrong :
    TransactionalExecutor.make samplePlatform (txt "t1") (⟨[]⟩ : InMemoryWAL) sampleInverses
        sampleTools () = .ok sampleExecutor ∧
      ¬Compensated samplePlatform
        (doneIn samplePlatform [.step (putCall "s" 1), .step (putCall "s" 2)] sampleExecutor)
        (runEvents samplePlatform [.step (putCall "s" 1), .step (putCall "s" 2)] sampleExecutor)
        ((Ending.abort (txt "stop")).apply samplePlatform
          (runEvents samplePlatform [.step (putCall "s" 1), .step (putCall "s" 2)]
            sampleExecutor)) := by
  obtain ⟨hdone, hpending⟩ := put_twice (a := "s") (b := "s") (by decide) (by decide)
  have htracks := tracks_runEvents (p := samplePlatform)
    (Tracks.start (s := sampleExecutor) rfl rfl rfl rfl)
    [.step (putCall "s" 1), .step (putCall "s" 2)]
  rw [List.nil_append] at htracks
  refine ⟨rfl, fun hcompensated => ?_⟩
  have hcondition := (abort_compensated_iff htracks hpending (txt "stop")).mp hcompensated
  rw [hdone] at hcondition
  have hsame := hcondition.sameArgs (putDone "s" 1) List.mem_cons_self (putDone "s" 2)
    (List.mem_cons_of_mem _ List.mem_cons_self) rfl
  exact absurd hsame.2 (by decide)

end Sample

end TexGovernance.Safeflow
