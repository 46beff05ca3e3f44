import TexGovernance.Safeflow.Executor
import TexGovernance.Lib.Actions

/-!
# What a rollback invokes

The inverses that a transaction owes, run one after the other on a world, are
what `_rollback` invokes, up to the first exception whose text does not fit the
log.
-/

namespace TexGovernance.Safeflow
open PyStr PyBytes PyCodec PyRepr PyDict Actions

variable {σ World Val : Type}

structure Undo (Val : Type) where
  stepId : Str
  inverseOp : Str
  tool : Str
  args : Dict Str Val
  result : Option Val

def undoOf (stash : Dict Str (Stash Val)) (step : TransactionStep) : Option (Undo Val) :=
  match step.inverseOp with
  | none => none
  | some op =>
    match step.error with
    | some _ => none
    | none =>
      let cached := stash.get? step.stepId
      some ⟨step.stepId, op, step.tool, (cached.map Stash.args).getD Dict.empty,
        cached.map Stash.result⟩

theorem undoOf_inverseOp {stash : Dict Str (Stash Val)} {step : TransactionStep} {u : Undo Val}
    (h : undoOf stash step = some u) : u.inverseOp ∈ step.inverseOp := by
  unfold undoOf at h
  split at h
  · cases h
  · next op hop =>
    split at h
    · cases h
    · cases h
      exact hop

def undoCall (u : Undo Val) (returned : Except Str Unit) : InverseCall Val :=
  ⟨u.stepId, u.inverseOp, u.tool, u.args, u.result, errorText returned⟩

def compensate (inverses : Dict Str (InverseFn World Val)) : World → List (Undo Val) →
    List (InverseCall Val)
  | _, [] => []
  | w, u :: rest =>
    match inverses.get? u.inverseOp with
    | none => compensate inverses w rest
    | some inverse =>
      let returned := inverse w u.tool u.args u.result
      undoCall u returned.2 :: compensate inverses returned.1 rest

def InverseCall.request (c : InverseCall Val) : Undo Val :=
  ⟨c.stepId, c.inverseOp, c.tool, c.args, c.result⟩

def InverseCall.Noteable (c : InverseCall Val) : Prop := ∀ text ∈ c.error, Plain (text.take 300)

instance (c : InverseCall Val) : Decidable c.Noteable :=
  inferInstanceAs (Decidable (∀ text ∈ c.error, _))

def performed : List (InverseCall Val) → List (InverseCall Val)
  | [] => []
  | c :: rest => if c.Noteable then c :: performed rest else [c]

theorem compensate_requests {inverses : Dict Str (InverseFn World Val)} {undos : List (Undo Val)}
    (h : ∀ u ∈ undos, ∃ inverse, inverses.get? u.inverseOp = some inverse) (w : World) :
    (compensate inverses w undos).map InverseCall.request = undos := by
  induction undos generalizing w with
  | nil => rfl
  | cons u rest ih =>
    obtain ⟨⟨inverse, hinverse⟩, hrest⟩ := List.forall_mem_cons.mp h
    simp only [compensate, hinverse, List.map_cons, ih hrest]
    rfl

theorem performed_eq_iff (calls : List (InverseCall Val)) :
    performed calls = calls ↔ ∀ c ∈ calls.dropLast, c.Noteable := by
  induction calls with
  | nil => simp [performed]
  | cons c rest ih =>
    unfold performed
    cases rest with
    | nil => simp [performed]
    | cons d rest =>
      by_cases hc : c.Noteable
      · rw [if_pos hc, List.dropLast_cons_cons, List.forall_mem_cons, List.cons.injEq, ih]
        exact ⟨fun h => ⟨hc, h.2⟩, fun h => ⟨rfl, h.2⟩⟩
      · rw [if_neg hc, List.dropLast_cons_cons, List.forall_mem_cons]
        refine iff_of_false (by simp) fun h => hc h.1

theorem performed_isPrefix (calls : List (InverseCall Val)) : performed calls <+: calls := by
  induction calls with
  | nil => exact List.prefix_refl _
  | cons c rest ih =>
    unfold performed
    split
    · exact (List.prefix_cons_inj c).mpr ih
    · exact ⟨rest, rfl⟩

theorem performed_of_noteable {calls : List (InverseCall Val)} (h : ∀ c ∈ calls, c.Noteable) :
    performed calls = calls :=
  (performed_eq_iff calls).mpr fun c hc => h c (List.dropLast_subset calls hc)

section Invoked

variable (p : Platform Val)

/-- The line of `_rollback_failures` for an inverse that raised. -/
def failureText (c : InverseCall Val) : Option Str :=
  c.error.map fun exc =>
    txt "inverse " ++ p.repr c.inverseOp ++ txt " for step " ++ c.stepId ++ txt " raised: " ++ exc

theorem filterMap_failureText (u : Undo Val) (returned : Except Str Unit) :
    [undoCall u returned].filterMap (failureText p) = ((errorText returned).map fun exc =>
      txt "inverse " ++ p.repr u.inverseOp ++ txt " for step " ++ u.stepId ++ txt " raised: " ++
        exc).toList := by
  cases returned with
  | ok _ => rfl
  | error exc => rfl

/-- The inverses of `calls` were invoked, and the log and the clock moved. -/
structure Undone (calls : List (InverseCall Val)) (s s' : TransactionalExecutor σ World Val) :
    Prop where
  txn : s'.txn = s.txn
  inverses : s'.inverses = s.inverses
  tools : s'.tools = s.tools
  inverseArgs : s'.inverseArgs = s.inverseArgs
  inverseCalls : s'.inverseCalls = s.inverseCalls ++ calls
  rollbackFailures : s'.rollbackFailures = s.rollbackFailures ++ calls.filterMap (failureText p)

variable {p}

theorem Undone.nil (s : TransactionalExecutor σ World Val) : Undone p [] s s :=
  ⟨rfl, rfl, rfl, rfl, (List.append_nil _).symm, (List.append_nil _).symm⟩

theorem Undone.append {calls more : List (InverseCall Val)} {s t u : TransactionalExecutor σ World Val}
    (h : Undone p calls s t) (h' : Undone p more t u) : Undone p (calls ++ more) s u := by
  refine ⟨h'.txn.trans h.txn, h'.inverses.trans h.inverses, h'.tools.trans h.tools,
    h'.inverseArgs.trans h.inverseArgs, ?_, ?_⟩
  · rw [h'.inverseCalls, h.inverseCalls, List.append_assoc]
  · rw [h'.rollbackFailures, h.rollbackFailures, List.filterMap_append, List.append_assoc]

end Invoked

structure Logged (s s' : TransactionalExecutor σ World Val) : Prop where
  txn : s'.txn = s.txn
  inverses : s'.inverses = s.inverses
  tools : s'.tools = s.tools
  inverseArgs : s'.inverseArgs = s.inverseArgs
  rollbackFailures : s'.rollbackFailures = s.rollbackFailures
  world : s'.world = s.world
  inverseCalls : s'.inverseCalls = s.inverseCalls

theorem Logged.refl (s : TransactionalExecutor σ World Val) : Logged s s :=
  ⟨rfl, rfl, rfl, rfl, rfl, rfl, rfl⟩

variable [WAL σ] (p : Platform Val)

omit [WAL σ] in
theorem raises_ok {α : Type} {x : Except PyErr α} {a : α} (h : x = .ok a)
    (s : TransactionalExecutor σ World Val) : (raises x : Exec σ World Val α) s = .ok a s := by
  rw [h]
  rfl

omit [WAL σ] in
theorem raises_error {α : Type} {x : Except PyErr α} {e : PyErr} (h : x = .error e)
    (s : TransactionalExecutor σ World Val) :
    (raises x : Exec σ World Val α) s = .error (.python e) s := by
  rw [h]
  rfl

section Append

variable (kind : WALEntryKind) {stepId tool argsHash resultHash inverseOp note : Option Str}
  (s : TransactionalExecutor σ World Val)

theorem appendWal_ok [WAL.Reliable σ]
    (hfit : TextsFit stepId tool argsHash resultHash inverseOp note) :
    ∃ s', appendWal p kind stepId tool argsHash resultHash inverseOp note s = .ok () s' ∧
      Logged s s' := by
  let fields : WALFields :=
    { sequence := WAL.nextSequence s.wal, txnId := s.txn.txnId.text, kind, stepId, tool, argsHash,
      resultHash, inverseOp, note, timestampMs := p.nowMs s.clockReads,
      prevHash := WAL.lastHash s.wal }
  have hvalid : fields.Valid :=
    ⟨⟨s.txn.txnId.nonempty, s.txn.txnId.fits⟩, requiredText_lastHashOf _, hfit⟩
  have hmake : WALEntry.make fields = .ok ⟨fields, hvalid⟩ := dif_pos hvalid
  obtain ⟨wal, hwal⟩ := WAL.Reliable.accepts s.wal ⟨fields, hvalid⟩ rfl rfl
  refine ⟨{ s with clockReads := s.clockReads + 1, wal := wal }, ?_, rfl, rfl, rfl, rfl, rfl, rfl, rfl⟩
  change (raises (WALEntry.make fields) >>= fun entry => raises (WAL.append s.wal entry) >>= fun wal =>
    modify fun s => { s with wal := wal }) { s with clockReads := s.clockReads + 1 } = _
  rw [hmake]
  change (raises (WAL.append s.wal ⟨fields, hvalid⟩) >>= fun wal =>
    modify fun s => { s with wal := wal }) { s with clockReads := s.clockReads + 1 } = _
  rw [hwal]
  rfl

theorem appendWal_error (hfit : ¬TextsFit stepId tool argsHash resultHash inverseOp note) :
    ∃ s', appendWal p kind stepId tool argsHash resultHash inverseOp note s =
        .error (.python .valueError) s' ∧ Logged s s' := by
  let fields : WALFields :=
    { sequence := WAL.nextSequence s.wal, txnId := s.txn.txnId.text, kind, stepId, tool, argsHash,
      resultHash, inverseOp, note, timestampMs := p.nowMs s.clockReads,
      prevHash := WAL.lastHash s.wal }
  have hinvalid : ¬fields.Valid := fun h => hfit h.2.2
  have hmake : WALEntry.make fields = .error .valueError := dif_neg hinvalid
  refine ⟨{ s with clockReads := s.clockReads + 1 }, ?_, rfl, rfl, rfl, rfl, rfl, rfl, rfl⟩
  change (raises (WALEntry.make fields) >>= fun entry => raises (WAL.append s.wal entry) >>= fun wal =>
    modify fun s => { s with wal := wal }) { s with clockReads := s.clockReads + 1 } = _
  rw [hmake]
  rfl

end Append

theorem fits_note_iff {front : Str} (hfront : Plain front) (hlen : front.length ≤ 200) (text : Str) :
    fitsField 500 (front ++ text.take 300) ↔ Plain (text.take 300) := by
  have htake : (text.take 300).length ≤ 300 := List.length_take_le 300 text
  refine ⟨fun h c hc => h.2 c (List.mem_append_right _ hc), fun h => ⟨?_, hfront.append h⟩⟩
  rw [List.length_append]
  omega

section Loop

variable {p} {s : TransactionalExecutor σ World Val} {step : TransactionStep}

theorem rollbackStep_skip (h : undoOf s.inverseArgs step = none) :
    rollbackStep p step s = .ok () s := by
  unfold undoOf at h
  unfold rollbackStep
  cases hop : step.inverseOp with
  | none => rfl
  | some op =>
    cases herror : step.error with
    | some e => rfl
    | none =>
      rw [hop, herror] at h
      cases h

theorem textsFit_step {op note : Str} (hop : step.inverseOp = some op) (hnote : fitsField 500 note) :
    TextsFit step.stepId step.tool step.argsHash step.resultHash op note := by
  have hvalid := step.valid
  refine ⟨?_, ?_, ?_, hvalid.resultHash, ?_, ?_⟩
  · exact (optionalFits_some _ _).mpr hvalid.stepId.2
  · exact (optionalFits_some _ _).mpr hvalid.tool.2
  · exact (optionalFits_some _ _).mpr hvalid.argsHash.2
  · rw [← hop]
    exact hvalid.inverseOp
  · exact (optionalFits_some _ _).mpr hnote

theorem noteUndone_spec [WAL.Reliable σ] {op : Str} (hop : step.inverseOp = some op)
    (s : TransactionalExecutor σ World Val) (returned : Except Str Unit) :
    ∃ s', noteUndone p step op returned s =
        (if ∀ text ∈ errorText returned, Plain (text.take 300) then .ok () s'
          else .error (.python .valueError) s') ∧
      s'.txn = s.txn ∧ s'.inverses = s.inverses ∧ s'.tools = s.tools ∧
      s'.inverseArgs = s.inverseArgs ∧ s'.inverseCalls = s.inverseCalls ∧ s'.world = s.world ∧
      s'.rollbackFailures = s.rollbackFailures ++ ((errorText returned).map fun exc =>
        txt "inverse " ++ p.repr op ++ txt " for step " ++ step.stepId ++ txt " raised: " ++
          exc).toList := by
  cases returned with
  | ok u =>
    have hfit := textsFit_step hop (show fitsField 500 (txt "rollback ok") by decide)
    obtain ⟨s', hrun, hlog⟩ := appendWal_ok p .rollbackAfter s hfit
    refine ⟨s', ?_, hlog.txn, hlog.inverses, hlog.tools, hlog.inverseArgs, hlog.inverseCalls,
      hlog.world, ?_⟩
    · rw [if_pos (by simp [errorText])]
      exact hrun
    · rw [hlog.rollbackFailures]
      exact (List.append_nil _).symm
  | error exc =>
    let failed : TransactionalExecutor σ World Val :=
      { s with rollbackFailures := s.rollbackFailures ++
          [txt "inverse " ++ p.repr op ++ txt " for step " ++ step.stepId ++ txt " raised: " ++ exc] }
    have hnote := fits_note_iff (plain_txt "rollback error: ") (by decide) exc
    by_cases hplain : Plain (exc.take 300)
    · obtain ⟨s', hrun, hlog⟩ := appendWal_ok p .rollbackAfter failed
        (textsFit_step hop (hnote.mpr hplain))
      refine ⟨s', ?_, hlog.txn, hlog.inverses, hlog.tools, hlog.inverseArgs, hlog.inverseCalls,
        hlog.world, hlog.rollbackFailures⟩
      rw [if_pos (by simpa [errorText] using hplain)]
      exact hrun
    · have hunfit : ¬TextsFit step.stepId step.tool step.argsHash step.resultHash op
          (some (txt "rollback error: " ++ exc.take 300)) := by
        intro hfit
        exact hplain (hnote.mp ((optionalFits_some _ _).mp hfit.note))
      obtain ⟨s', hrun, hlog⟩ := appendWal_error p .rollbackAfter failed hunfit
      refine ⟨s', ?_, hlog.txn, hlog.inverses, hlog.tools, hlog.inverseArgs, hlog.inverseCalls,
        hlog.world, hlog.rollbackFailures⟩
      rw [if_neg (by simpa [errorText] using hplain)]
      exact hrun

theorem rollbackStep_undo [WAL.Reliable σ] {u : Undo Val} {inverse : InverseFn World Val}
    (h : undoOf s.inverseArgs step = some u) (hinverse : s.inverses.get? u.inverseOp = some inverse) :
    ∃ s', rollbackStep p step s =
        (if (undoCall u (inverse s.world u.tool u.args u.result).2).Noteable then .ok () s'
          else .error (.python .valueError) s') ∧
      Undone p [undoCall u (inverse s.world u.tool u.args u.result).2] s s' ∧
      s'.world = (inverse s.world u.tool u.args u.result).1 := by
  unfold undoOf at h
  cases hop : step.inverseOp with
  | none =>
    rw [hop] at h
    cases h
  | some op =>
    cases herror : step.error with
    | some e =>
      rw [hop, herror] at h
      cases h
    | none =>
      rw [hop, herror] at h
      cases h
      simp only at hinverse ⊢
      have hfit := textsFit_step hop (show fitsField 500 (txt "rolling back step") by decide)
      obtain ⟨t, hbefore, hlog⟩ := appendWal_ok p .rollbackBefore s hfit
      generalize hargs : ((s.inverseArgs.get? step.stepId).map Stash.args).getD Dict.empty = args
      generalize hresult : (s.inverseArgs.get? step.stepId).map Stash.result = result
      let returned := inverse s.world step.tool args result
      let u : Undo Val := ⟨step.stepId, op, step.tool, args, result⟩
      let invoked : TransactionalExecutor σ World Val :=
        { t with world := returned.1, inverseCalls := t.inverseCalls ++ [undoCall u returned.2] }
      have hinvoke : invokeInverse step.stepId op inverse step.tool args result t =
          .ok returned.2 invoked := by
        unfold invokeInverse
        rw [hlog.world]
        rfl
      obtain ⟨s', hnote, htxn, hinv, htools, hstash, hcalls, hworld, hfailures⟩ :=
        noteUndone_spec (p := p) hop invoked returned.2
      refine ⟨s', ?_, ⟨?_, ?_, ?_, ?_, ?_, ?_⟩, hworld⟩
      · have hget : (get : Exec σ World Val _) s = .ok s s := rfl
        unfold rollbackStep undoStep
        simp only [hop, herror]
        rw [bind_ok hget]
        simp only [hinverse, hargs, hresult]
        rw [bind_ok hbefore, bind_ok hinvoke]
        exact hnote
      · exact htxn.trans hlog.txn
      · exact hinv.trans hlog.inverses
      · exact htools.trans hlog.tools
      · exact hstash.trans hlog.inverseArgs
      · rw [hcalls]
        exact congrArg (· ++ _) hlog.inverseCalls
      · rw [hfailures]
        exact congr_arg₂ (· ++ ·) hlog.rollbackFailures (filterMap_failureText p u returned.2).symm

theorem rollbackSteps_spec [WAL.Reliable σ] (steps : List TransactionStep)
    (hreg : ∀ step ∈ steps, ∀ op ∈ step.inverseOp, ∃ inverse, s.inverses.get? op = some inverse) :
    let calls := compensate s.inverses s.world (steps.filterMap (undoOf s.inverseArgs))
    ∃ s', rollbackSteps p steps s =
        (if ∀ c ∈ calls, c.Noteable then .ok () s' else .error (.python .valueError) s') ∧
      Undone p (performed calls) s s' := by
  induction steps generalizing s with
  | nil => exact ⟨s, by simp [compensate, rollbackSteps, pure, EStateM.pure], Undone.nil s⟩
  | cons step rest ih =>
    obtain ⟨hstep, hrest⟩ := List.forall_mem_cons.mp hreg
    simp only
    cases hundo : undoOf s.inverseArgs step with
    | none =>
      rw [List.filterMap_cons_none hundo]
      obtain ⟨s', hrun, hundone⟩ := ih hrest
      refine ⟨s', ?_, hundone⟩
      unfold rollbackSteps
      rw [bind_ok (rollbackStep_skip hundo)]
      exact hrun
    | some u =>
      rw [List.filterMap_cons_some hundo]
      obtain ⟨inverse, hinverse⟩ := hstep u.inverseOp (undoOf_inverseOp hundo)
      obtain ⟨t, hrun, hundone, hworld⟩ := rollbackStep_undo (p := p) hundo hinverse
      simp only [compensate, hinverse]
      generalize hcall : undoCall u (inverse s.world u.tool u.args u.result).2 = c at hrun hundone ⊢
      by_cases hnoteable : c.Noteable
      · have hreg' : ∀ step ∈ rest, ∀ op ∈ step.inverseOp,
            ∃ inverse, t.inverses.get? op = some inverse := by
          rw [hundone.inverses]
          exact hrest
        obtain ⟨s', hrun', hundone'⟩ := ih hreg'
        rw [hundone.inverses, hundone.inverseArgs, hworld] at hrun' hundone'
        rw [if_pos hnoteable] at hrun
        refine ⟨s', ?_, ?_⟩
        · unfold rollbackSteps
          rw [bind_ok hrun, hrun']
          simp only [List.forall_mem_cons, hnoteable, true_and]
        · unfold performed
          rw [if_pos hnoteable]
          exact hundone.append hundone'
      · rw [if_neg hnoteable] at hrun
        refine ⟨t, ?_, ?_⟩
        · unfold rollbackSteps
          rw [bind_error hrun, if_neg (fun h => hnoteable (h c List.mem_cons_self))]
        · unfold performed
          rw [if_neg hnoteable]
          exact hundone

end Loop

section Abort

variable {p} {s : TransactionalExecutor σ World Val}

def TransactionalExecutor.owed (s : TransactionalExecutor σ World Val) : List (Undo Val) :=
  s.txn.steps.reverse.filterMap (undoOf s.inverseArgs)

def TransactionalExecutor.owedCalls (s : TransactionalExecutor σ World Val) :
    List (InverseCall Val) :=
  compensate s.inverses s.world s.owed

def TransactionalExecutor.Registered (s : TransactionalExecutor σ World Val) : Prop :=
  ∀ step ∈ s.txn.steps, ∀ op ∈ step.inverseOp, ∃ inverse, s.inverses.get? op = some inverse

structure SameSteps (s s' : TransactionalExecutor σ World Val) : Prop where
  steps : s'.txn.steps = s.txn.steps
  inverses : s'.inverses = s.inverses
  tools : s'.tools = s.tools
  inverseArgs : s'.inverseArgs = s.inverseArgs

theorem abortPending_unplain {reason : Str} (hreason : ¬Plain (reason.take 300)) :
    ∃ s', abortPending p reason s = .error (.python .valueError) s' ∧ SameSteps s s' ∧
      s'.txn.state = .failed ∧ s'.inverseCalls = s.inverseCalls := by
  let marked : TransactionalExecutor σ World Val :=
    { s with
      clockReads := s.clockReads + 1
      txn := s.txn.withState .failed (p.nowMs s.clockReads) reason }
  have hunfit : ¬TextsFit none none none none none (some (txt "abort: " ++ reason.take 300)) := by
    intro hfit
    exact hreason ((fits_note_iff (plain_txt _) (by decide) reason).mp
      ((optionalFits_some _ _).mp hfit.note))
  obtain ⟨s', hrun, hlog⟩ := appendWal_error p .abort marked hunfit
  refine ⟨s', ?_, ⟨?_, hlog.inverses, hlog.tools, hlog.inverseArgs⟩, ?_, hlog.inverseCalls⟩
  · change (appendWal p .abort none none none none none (some (txt "abort: " ++ reason.take 300)) >>=
      fun _ => _) marked = _
    rw [bind_error hrun]
  · rw [hlog.txn]
    rfl
  · rw [hlog.txn]
    rfl

def settle : Exec σ World Val TransactionOutcome := do
  modify fun s =>
    if s.rollbackFailures = [] then { s with txn := s.txn.withState .rolledBack none none } else s
  outcome

theorem abortPending_plain [WAL.Reliable σ] {reason : Str} (hreason : Plain (reason.take 300))
    (hreg : s.Registered) :
    ∃ t, abortPending p reason s =
        (if ∀ c ∈ s.owedCalls, c.Noteable then settle t else .error (.python .valueError) t) ∧
      SameSteps s t ∧ t.txn.state = .failed ∧ t.txn.failureReason = some reason ∧
      t.inverseCalls = s.inverseCalls ++ performed s.owedCalls ∧
      t.rollbackFailures = s.rollbackFailures ++
        (performed s.owedCalls).filterMap (failureText p) := by
  let marked : TransactionalExecutor σ World Val :=
    { s with
      clockReads := s.clockReads + 1
      txn := s.txn.withState .failed (p.nowMs s.clockReads) reason }
  have hfit : TextsFit none none none none none (some (txt "abort: " ++ reason.take 300)) := by
    refine ⟨by simp, by simp, by simp, by simp, by simp, ?_⟩
    exact (optionalFits_some _ _).mpr ((fits_note_iff (plain_txt _) (by decide) reason).mpr hreason)
  obtain ⟨m, hlogged, hlog⟩ := appendWal_ok p .abort marked hfit
  have hregm : ∀ step ∈ m.txn.steps.reverse, ∀ op ∈ step.inverseOp,
      ∃ inverse, m.inverses.get? op = some inverse := by
    rw [hlog.txn, hlog.inverses]
    intro step hstep
    exact hreg step (List.mem_reverse.mp hstep)
  have howed : compensate m.inverses m.world (m.txn.steps.reverse.filterMap (undoOf m.inverseArgs)) =
      s.owedCalls := by
    rw [hlog.inverses, hlog.world, hlog.txn, hlog.inverseArgs]
    rfl
  obtain ⟨t, hloop, hundone⟩ := rollbackSteps_spec (p := p) m.txn.steps.reverse hregm
  rw [howed] at hloop hundone
  have hrollback : rollback p m = rollbackSteps p m.txn.steps.reverse m := rfl
  refine ⟨t, ?_, ⟨?_, ?_, ?_, ?_⟩, ?_, ?_, ?_, ?_⟩
  · change (appendWal p .abort none none none none none (some (txt "abort: " ++ reason.take 300)) >>=
      fun _ => rollback p >>= fun _ => settle) marked = _
    rw [bind_ok hlogged]
    by_cases hall : ∀ c ∈ s.owedCalls, c.Noteable
    · rw [if_pos hall] at hloop ⊢
      rw [bind_ok (hrollback.trans hloop)]
    · rw [if_neg hall] at hloop ⊢
      rw [bind_error (hrollback.trans hloop)]
  · rw [hundone.txn, hlog.txn]
    rfl
  · rw [hundone.inverses, hlog.inverses]
  · rw [hundone.tools, hlog.tools]
  · rw [hundone.inverseArgs, hlog.inverseArgs]
  · rw [hundone.txn, hlog.txn]
    rfl
  · rw [hundone.txn, hlog.txn]
    rfl
  · rw [hundone.inverseCalls, hlog.inverseCalls]
  · rw [hundone.rollbackFailures, hlog.rollbackFailures]

theorem after_outcome (s : TransactionalExecutor σ World Val) :
    after (outcome : Exec σ World Val TransactionOutcome) s = s := by
  have hkeeps : Keeps (fun s s' => s' = s) (outcome : Exec σ World Val TransactionOutcome) := by
    have htrans : ∀ s t u : TransactionalExecutor σ World Val, t = s → u = t → u = s :=
      fun s t u h h' => h'.trans h
    refine Keeps.read fun s => ?_
    refine Keeps.seq htrans ?_ (fun digest => ?_) s
    · cases s.txn.hash with
      | ok digest => exact fun _ => rfl
      | error e => exact fun _ => rfl
    · split
      · exact fun _ => rfl
      · exact fun _ => rfl
  exact hkeeps s

theorem after_settle (s : TransactionalExecutor σ World Val) :
    after (settle : Exec σ World Val TransactionOutcome) s =
      if s.rollbackFailures = [] then { s with txn := s.txn.withState .rolledBack none none } else s :=
  after_outcome _

theorem failureText_eq_nil_iff (calls : List (InverseCall Val)) :
    calls.filterMap (failureText p) = [] ↔ ∀ c ∈ calls, c.error = none := by
  rw [List.filterMap_eq_nil_iff]
  simp [failureText]

theorem abortPending_spec [WAL.Reliable σ] (reason : Str) (hreg : s.Registered)
    (hnone : s.rollbackFailures = []) :
    let s' := after (abortPending p reason) s
    SameSteps s s' ∧
      s'.inverseCalls = s.inverseCalls ++ (if Plain (reason.take 300) then performed s.owedCalls else []) ∧
      s'.txn.state = if Plain (reason.take 300) ∧ ∀ c ∈ s.owedCalls, c.error = none then .rolledBack
        else .failed := by
  simp only
  by_cases hreason : Plain (reason.take 300)
  · obtain ⟨t, hrun, hsame, hstate, -, hcalls, hfailures⟩ :=
      abortPending_plain (p := p) hreason hreg
    rw [hnone, List.nil_append] at hfailures
    rw [if_pos hreason]
    by_cases hall : ∀ c ∈ s.owedCalls, c.Noteable
    · rw [if_pos hall] at hrun
      rw [performed_of_noteable hall] at hcalls hfailures ⊢
      have hafter : after (abortPending p reason) s =
          if t.rollbackFailures = [] then { t with txn := t.txn.withState .rolledBack none none }
          else t := by
        rw [← after_settle]
        unfold after
        rw [hrun]
      have hempty : t.rollbackFailures = [] ↔ ∀ c ∈ s.owedCalls, c.error = none := by
        rw [hfailures, failureText_eq_nil_iff]
      rw [hafter]
      by_cases hclean : ∀ c ∈ s.owedCalls, c.error = none
      · rw [if_pos (hempty.mpr hclean), if_pos ⟨hreason, hclean⟩]
        exact ⟨⟨hsame.steps, hsame.inverses, hsame.tools, hsame.inverseArgs⟩, hcalls, rfl⟩
      · rw [if_neg (mt hempty.mp hclean), if_neg (fun h => hclean h.2)]
        exact ⟨hsame, hcalls, hstate⟩
    · rw [if_neg hall] at hrun
      rw [after_of_error hrun, if_neg]
      · exact ⟨hsame, hcalls, hstate⟩
      · rintro ⟨-, hclean⟩
        refine hall fun c hc text htext => ?_
        rw [hclean c hc] at htext
        cases htext
  · obtain ⟨s', hrun, hsame, hstate, hcalls⟩ := abortPending_unplain (p := p) (s := s) hreason
    rw [after_of_error hrun, if_neg hreason, if_neg (fun h => hreason h.1), List.append_nil]
    exact ⟨hsame, hcalls, hstate⟩

end Abort

end TexGovernance.Safeflow
