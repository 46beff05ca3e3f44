import TexGovernance.Safeflow.Rollback

/-!
# What a step call can do

A step call is refused or fails before anything is recorded, or its tool raises
and the transaction is aborted, or its tool returns and the step is recorded
with what its inverse will be given.
-/

namespace TexGovernance.Safeflow
open PyStr PyBytes PyCodec PyRepr PyDict Actions

variable {σ World Val : Type}

structure Unrecorded (s s' : TransactionalExecutor σ World Val) : Prop where
  txn : s'.txn = s.txn
  inverses : s'.inverses = s.inverses
  tools : s'.tools = s.tools
  inverseArgs : s'.inverseArgs = s.inverseArgs
  rollbackFailures : s'.rollbackFailures = s.rollbackFailures
  inverseCalls : s'.inverseCalls = s.inverseCalls

theorem Logged.unrecorded {s s' : TransactionalExecutor σ World Val} (h : Logged s s') :
    Unrecorded s s' :=
  ⟨h.txn, h.inverses, h.tools, h.inverseArgs, h.rollbackFailures, h.inverseCalls⟩

theorem Unrecorded.trans {s t u : TransactionalExecutor σ World Val} (h : Unrecorded s t)
    (h' : Unrecorded t u) : Unrecorded s u :=
  ⟨h'.txn.trans h.txn, h'.inverses.trans h.inverses, h'.tools.trans h.tools,
    h'.inverseArgs.trans h.inverseArgs, h'.rollbackFailures.trans h.rollbackFailures,
    h'.inverseCalls.trans h.inverseCalls⟩

structure Recorded (record : TransactionStep) (s s' : TransactionalExecutor σ World Val) : Prop where
  txn : s'.txn = s.txn.withStep record
  inverses : s'.inverses = s.inverses
  tools : s'.tools = s.tools
  rollbackFailures : s'.rollbackFailures = s.rollbackFailures
  inverseCalls : s'.inverseCalls = s.inverseCalls

structure RecordOf (call : StepCall Val) (record : TransactionStep) : Prop where
  stepId : record.stepId = call.stepId
  tool : record.tool = call.tool
  inverseOp : record.inverseOp = call.inverseOp

/-- The checks of a step call up to the invocation of its tool. -/
structure Admitted (p : Platform Val) (s : TransactionalExecutor σ World Val) (call : StepCall Val)
    (argsHash : Str) (impl : ToolFn World Val) : Prop where
  pending : s.txn.state = .pending
  inverseOp : ∀ op ∈ call.inverseOp, op ∈ s.inverses.keys
  tool : s.tools.get? call.tool = some impl
  argsHash : hashArgs p call.args = .ok argsHash
  fits : fitsField 64 call.stepId ∧ fitsField 128 call.tool ∧ OptionalFits 128 call.inverseOp

def Recordable (call : StepCall Val) (error : Option Str) : Prop :=
  call.stepId ≠ [] ∧ call.tool ≠ [] ∧ ∀ exc ∈ error, Plain (exc.take 1000)

theorem Logged.invoked {s m : TransactionalExecutor σ World Val} (h : Logged s m) (w : World) :
    Unrecorded s { m with world := w } :=
  ⟨h.txn, h.inverses, h.tools, h.inverseArgs, h.rollbackFailures, h.inverseCalls⟩

theorem Recorded.of_unrecorded {record : TransactionStep} {s t u : TransactionalExecutor σ World Val}
    (h : Unrecorded s t) (h' : Recorded record t u) : Recorded record s u :=
  ⟨by rw [h'.txn, h.txn], h'.inverses.trans h.inverses, h'.tools.trans h.tools,
    h'.rollbackFailures.trans h.rollbackFailures, h'.inverseCalls.trans h.inverseCalls⟩

variable [WAL σ] {p : Platform Val} {s : TransactionalExecutor σ World Val} {call : StepCall Val}
  {argsHash : Str} {impl : ToolFn World Val}

omit [WAL σ] in
theorem Admitted.textsFit (h : Admitted p s call argsHash impl) {resultHash note : Option Str}
    (hresult : OptionalFits 128 resultHash) (hnote : OptionalFits 500 note) :
    TextsFit call.stepId call.tool argsHash resultHash call.inverseOp note := by
  have hdigest := requiredText_hashArgs p h.argsHash
  exact ⟨(optionalFits_some _ _).mpr h.fits.1, (optionalFits_some _ _).mpr h.fits.2.1,
    (optionalFits_some _ _).mpr hdigest.2, hresult, h.fits.2.2, hnote⟩

omit [WAL σ] in
theorem admission_ok (hpending : s.txn.state = .pending)
    (hinverse : ∀ op ∈ call.inverseOp, op ∈ s.inverses.keys)
    (htool : s.tools.get? call.tool = some impl) : admission p call s = .ok impl s := by
  have hget : (get : Exec σ World Val _) s = .ok s s := rfl
  have hknown : ¬∃ op ∈ call.inverseOp, op ∉ s.inverses.keys := by
    rintro ⟨op, hop, hnot⟩
    exact hnot (hinverse op hop)
  unfold admission
  rw [bind_ok hget, if_neg (not_not.mpr hpending), if_neg hknown]
  simp only [htool]
  rfl

omit [WAL σ] in
theorem admission_error (h : ∀ impl, ¬(s.txn.state = .pending ∧
      (∀ op ∈ call.inverseOp, op ∈ s.inverses.keys) ∧ s.tools.get? call.tool = some impl)) :
    ∃ e, admission p call s = .error e s := by
  have hget : (get : Exec σ World Val _) s = .ok s s := rfl
  unfold admission
  rw [bind_ok hget]
  by_cases hpending : s.txn.state = .pending
  · rw [if_neg (not_not.mpr hpending)]
    by_cases hknown : ∃ op ∈ call.inverseOp, op ∉ s.inverses.keys
    · rw [if_pos hknown]
      exact ⟨_, rfl⟩
    · rw [if_neg hknown]
      have hinverse : ∀ op ∈ call.inverseOp, op ∈ s.inverses.keys := by
        intro op hop
        by_contra hnot
        exact hknown ⟨op, hop, hnot⟩
      cases htool : s.tools.get? call.tool with
      | none => exact ⟨_, rfl⟩
      | some impl => exact absurd ⟨hpending, hinverse, htool⟩ (h impl)
  · rw [if_pos hpending]
    exact ⟨_, rfl⟩

theorem step_begun [WAL.Reliable σ] (h : Admitted p s call argsHash impl) :
    ∃ n m, Logged s m ∧ step p call s =
      (match (impl s.world call.args).2 with
        | .error exc => stepRaised p call argsHash n exc
        | .ok result => stepReturned p call argsHash n result)
        { m with world := (impl s.world call.args).1 } := by
  have hadmit := admission_ok (p := p) h.pending h.inverseOp h.tool
  let ticked : TransactionalExecutor σ World Val := { s with clockReads := s.clockReads + 1 }
  have hnow : (now p : Exec σ World Val ℕ) s = .ok (p.nowMs s.clockReads) ticked := rfl
  obtain ⟨m, hlogged, hlog⟩ := appendWal_ok p .stepBefore ticked
    (h.textsFit (optionalFits_none 128) (optionalFits_none 500))
  have hinvoke : (invokeTool impl call.args : Exec σ World Val _) m =
      .ok (impl s.world call.args).2 { m with world := (impl s.world call.args).1 } := by
    unfold invokeTool
    rw [hlog.world]
  refine ⟨p.nowMs s.clockReads, m, ⟨hlog.txn, hlog.inverses, hlog.tools, hlog.inverseArgs,
    hlog.rollbackFailures, hlog.world, hlog.inverseCalls⟩, ?_⟩
  unfold step
  rw [bind_ok hadmit, bind_ok (raises_ok h.argsHash s), bind_ok hnow, bind_ok hlogged]
  exact bind_ok hinvoke _

theorem step_refused [WAL.Reliable σ] (h : ∀ argsHash impl, ¬Admitted p s call argsHash impl) :
    ∃ e s', step p call s = .error e s' ∧ Unrecorded s s' := by
  by_cases hpassed : ∃ impl, s.txn.state = .pending ∧
      (∀ op ∈ call.inverseOp, op ∈ s.inverses.keys) ∧ s.tools.get? call.tool = some impl
  · obtain ⟨impl, hpending, hinverse, htool⟩ := hpassed
    have hadmit := admission_ok (p := p) hpending hinverse htool
    cases hhash : hashArgs p call.args with
    | error e =>
      refine ⟨.python e, s, ?_, (Logged.refl s).unrecorded⟩
      unfold step
      rw [bind_ok hadmit, bind_error (raises_error hhash s)]
    | ok argsHash =>
      let ticked : TransactionalExecutor σ World Val := { s with clockReads := s.clockReads + 1 }
      have hnow : (now p : Exec σ World Val ℕ) s = .ok (p.nowMs s.clockReads) ticked := rfl
      have hunfit : ¬TextsFit call.stepId call.tool argsHash none call.inverseOp none := by
        intro hfit
        refine h argsHash impl ⟨hpending, hinverse, htool, hhash, ?_, ?_, hfit.inverseOp⟩
        · exact (optionalFits_some _ _).mp hfit.stepId
        · exact (optionalFits_some _ _).mp hfit.tool
      obtain ⟨m, hlogged, hlog⟩ := appendWal_error p .stepBefore ticked hunfit
      refine ⟨.python .valueError, m, ?_, ⟨hlog.txn, hlog.inverses, hlog.tools, hlog.inverseArgs,
        hlog.rollbackFailures, hlog.inverseCalls⟩⟩
      unfold step
      rw [bind_ok hadmit, bind_ok (raises_ok hhash s), bind_ok hnow, bind_error hlogged]
  · obtain ⟨e, hrefused⟩ := admission_error (p := p) (not_exists.mp hpassed)
    refine ⟨e, s, ?_, (Logged.refl s).unrecorded⟩
    unfold step
    exact bind_error hrefused _

section Second

variable (startedAtMs : ℕ) (m : TransactionalExecutor σ World Val)

def recordFields (p : Platform Val) (call : StepCall Val) (argsHash : Str) (startedAtMs : ℕ)
    (m : TransactionalExecutor σ World Val) (resultHash error : Option Str) : StepFields :=
  ⟨call.stepId, call.tool, argsHash, resultHash, call.inverseOp, startedAtMs, p.nowMs m.clockReads,
    error⟩

omit [WAL σ] in
theorem recordFields_valid_iff (h : Admitted p s call argsHash impl) {resultHash error : Option Str}
    (hresult : OptionalFits 128 resultHash) :
    (recordFields p call argsHash startedAtMs m resultHash (error.map (·.take 1000))).Valid ↔
      Recordable call error := by
  constructor
  · intro hvalid
    refine ⟨hvalid.stepId.1, hvalid.tool.1, fun exc hexc => ?_⟩
    exact (hvalid.error _ (Option.mem_map_of_mem _ hexc)).2
  · rintro ⟨hid, htool, hexc⟩
    refine ⟨⟨hid, h.fits.1⟩, ⟨htool, h.fits.2.1⟩, requiredText_hashArgs p h.argsHash, hresult,
      h.fits.2.2, fun text htext => ?_⟩
    obtain ⟨exc, hmem, rfl⟩ := Option.mem_map.mp htext
    exact ⟨List.length_take_le 1000 exc, hexc exc hmem⟩

theorem stepRaised_recordable [WAL.Reliable σ] (h : Admitted p s call argsHash impl) {exc : Str}
    (hrecord : Recordable call (some exc)) :
    ∃ record t, RecordOf call record ∧ record.error = some (exc.take 1000) ∧ Recorded record m t ∧
      t.inverseArgs = m.inverseArgs ∧ t.world = m.world ∧
      stepRaised p call argsHash startedAtMs exc m =
        (abort p (raisedReason p call exc) >>= fun _ => throw (.safeflow exc)) t := by
  have hvalid := (recordFields_valid_iff startedAtMs m h (optionalFits_none 128)).mpr hrecord
  let record : TransactionStep := ⟨_, hvalid⟩
  let ticked : TransactionalExecutor σ World Val := { m with clockReads := m.clockReads + 1 }
  let noted : TransactionalExecutor σ World Val := { ticked with txn := m.txn.withStep record }
  have hmake : TransactionStep.make _ = .ok record := dif_pos hvalid
  have hplain : Plain (exc.take 300) := by
    intro c hc
    refine hrecord.2.2 exc rfl c ?_
    have htake : exc.take 300 = (exc.take 1000).take 300 := by rw [List.take_take]; rfl
    rw [htake] at hc
    exact List.mem_of_mem_take hc
  have hnote : OptionalFits 500 (some (txt "error: " ++ exc.take 300)) :=
    (optionalFits_some _ _).mpr ((fits_note_iff (plain_txt _) (by decide) exc).mpr hplain)
  obtain ⟨t, hlogged, hlog⟩ := appendWal_ok p .stepAfter noted
    (h.textsFit (optionalFits_none 128) hnote)
  refine ⟨record, t, ⟨rfl, rfl, rfl⟩, rfl, ⟨?_, hlog.inverses, hlog.tools, hlog.rollbackFailures,
    hlog.inverseCalls⟩, hlog.inverseArgs, hlog.world, ?_⟩
  · exact hlog.txn
  · unfold stepRaised
    have hnow : (now p : Exec σ World Val ℕ) m = .ok (p.nowMs m.clockReads) ticked := rfl
    have hmodify : (modify fun s => { s with txn := s.txn.withStep record } :
        Exec σ World Val PUnit) ticked = .ok ⟨⟩ noted := rfl
    rw [bind_ok hnow]
    refine (bind_ok (raises_ok hmake ticked) _).trans ?_
    rw [bind_ok hmodify, bind_ok hlogged]

theorem stepRaised_unrecordable (h : Admitted p s call argsHash impl) {exc : Str}
    (hrecord : ¬Recordable call (some exc)) :
    ∃ t, stepRaised p call argsHash startedAtMs exc m = .error (.python .valueError) t ∧
      Unrecorded m t := by
  have hvalid := mt (recordFields_valid_iff startedAtMs m h (optionalFits_none 128)).mp hrecord
  let ticked : TransactionalExecutor σ World Val := { m with clockReads := m.clockReads + 1 }
  have hmake : TransactionStep.make _ = .error .valueError := dif_neg hvalid
  have hnow : (now p : Exec σ World Val ℕ) m = .ok (p.nowMs m.clockReads) ticked := rfl
  refine ⟨ticked, ?_, ⟨rfl, rfl, rfl, rfl, rfl, rfl⟩⟩
  unfold stepRaised
  rw [bind_ok hnow]
  exact bind_error (raises_error hmake ticked) _

/-- What `_inverse_args` becomes when the tool of a call has returned. -/
def stashed (call : StepCall Val) (result : Val) (stash : Dict Str (Stash Val)) :
    Dict Str (Stash Val) :=
  match call.inverseOp with
  | some _ => stash.set call.stepId ⟨call.tool, call.args, result⟩
  | none => stash

theorem stepReturned_recordable [WAL.Reliable σ] (h : Admitted p s call argsHash impl) {result : Val}
    {resultHash : Str} (hhash : hashResult p result = .ok resultHash)
    (hrecord : Recordable call none) :
    ∃ record t, RecordOf call record ∧ record.error = none ∧ Recorded record m t ∧
      t.inverseArgs = stashed call result m.inverseArgs ∧ t.world = m.world ∧
      stepReturned p call argsHash startedAtMs result m = .ok result t := by
  have hfits : OptionalFits 128 (some resultHash) :=
    (optionalFits_some _ _).mpr (requiredText_hashResult p hhash).2
  have hvalid := (recordFields_valid_iff startedAtMs m h hfits).mpr hrecord
  let record : TransactionStep := ⟨_, hvalid⟩
  let ticked : TransactionalExecutor σ World Val := { m with clockReads := m.clockReads + 1 }
  let noted : TransactionalExecutor σ World Val :=
    { ticked with
      txn := m.txn.withStep record
      inverseArgs := stashed call result m.inverseArgs }
  have hnow : (now p : Exec σ World Val ℕ) m = .ok (p.nowMs m.clockReads) ticked := rfl
  have hmake : TransactionStep.make _ = .ok record := dif_pos hvalid
  have hmodify : (modify fun s =>
      { s with
        txn := s.txn.withStep record
        inverseArgs := stashed call result s.inverseArgs } : Exec σ World Val PUnit) ticked =
      .ok ⟨⟩ noted := rfl
  obtain ⟨t, hlogged, hlog⟩ := appendWal_ok p .stepAfter noted
    (h.textsFit hfits (optionalFits_none 500))
  refine ⟨record, t, ⟨rfl, rfl, rfl⟩, rfl, ⟨hlog.txn, hlog.inverses, hlog.tools,
    hlog.rollbackFailures, hlog.inverseCalls⟩, hlog.inverseArgs, hlog.world, ?_⟩
  unfold stepReturned
  rw [bind_ok (raises_ok hhash m), bind_ok hnow]
  refine (bind_ok (raises_ok hmake ticked) _).trans ?_
  refine (bind_ok hmodify _).trans ?_
  rw [bind_ok hlogged]
  rfl

theorem stepReturned_unrecordable (h : Admitted p s call argsHash impl) {result : Val}
    (hrecord : (∀ resultHash, hashResult p result ≠ .ok resultHash) ∨ ¬Recordable call none) :
    ∃ e t, stepReturned p call argsHash startedAtMs result m = .error e t ∧ Unrecorded m t := by
  cases hhash : hashResult p result with
  | error e =>
    refine ⟨.python e, m, ?_, (Logged.refl m).unrecorded⟩
    unfold stepReturned
    exact bind_error (raises_error hhash m) _
  | ok resultHash =>
    have hfits : OptionalFits 128 (some resultHash) :=
      (optionalFits_some _ _).mpr (requiredText_hashResult p hhash).2
    have hrefused : ¬Recordable call none := by
      rcases hrecord with hnever | hrefused
      · exact absurd hhash (hnever resultHash)
      · exact hrefused
    have hvalid := mt (recordFields_valid_iff startedAtMs m h hfits).mp hrefused
    let ticked : TransactionalExecutor σ World Val := { m with clockReads := m.clockReads + 1 }
    have hnow : (now p : Exec σ World Val ℕ) m = .ok (p.nowMs m.clockReads) ticked := rfl
    have hmake : TransactionStep.make _ = .error .valueError := dif_neg hvalid
    refine ⟨.python .valueError, ticked, ?_, ⟨rfl, rfl, rfl, rfl, rfl, rfl⟩⟩
    unfold stepReturned
    rw [bind_ok (raises_ok hhash m), bind_ok hnow]
    exact bind_error (raises_error hmake ticked) _

end Second

omit [WAL σ] in
theorem Admitted.registered (h : Admitted p s call argsHash impl) {record : TransactionStep}
    (hrecord : RecordOf call record) :
    ∀ op ∈ record.inverseOp, ∃ inverse, s.inverses.get? op = some inverse := by
  intro op hop
  rw [hrecord.inverseOp] at hop
  refine Option.ne_none_iff_exists'.mp fun hnone => ?_
  exact (Dict.get?_eq_none_iff _ _).mp hnone (h.inverseOp op hop)

theorem step_raises [WAL.Reliable σ] (h : Admitted p s call argsHash impl) {w : World} {exc : Str}
    (hraise : impl s.world call.args = (w, .error exc)) (hrecord : Recordable call (some exc)) :
    ∃ record t, RecordOf call record ∧ record.error = some (exc.take 1000) ∧ Recorded record s t ∧
      t.inverseArgs = s.inverseArgs ∧ t.world = w ∧
      step p call s = (abort p (raisedReason p call exc) >>= fun _ => throw (.safeflow exc)) t := by
  obtain ⟨n, m, hlog, hstep⟩ := step_begun h
  rw [hraise] at hstep
  let invoked : TransactionalExecutor σ World Val := { m with world := w }
  obtain ⟨record, t, hof, herror, hrecorded, hstash, hworld, hrun⟩ :=
    stepRaised_recordable n invoked h hrecord
  exact ⟨record, t, hof, herror, hrecorded.of_unrecorded (hlog.invoked w),
    hstash.trans hlog.inverseArgs, hworld, hstep.trans hrun⟩

theorem step_raises_unrecordable [WAL.Reliable σ] (h : Admitted p s call argsHash impl) {w : World}
    {exc : Str} (hraise : impl s.world call.args = (w, .error exc))
    (hrecord : ¬Recordable call (some exc)) :
    ∃ t, step p call s = .error (.python .valueError) t ∧ Unrecorded s t := by
  obtain ⟨n, m, hlog, hstep⟩ := step_begun h
  rw [hraise] at hstep
  let invoked : TransactionalExecutor σ World Val := { m with world := w }
  obtain ⟨t, hrun, hsame⟩ :=
    stepRaised_unrecordable n invoked h hrecord
  exact ⟨t, hstep.trans hrun, (hlog.invoked w).trans hsame⟩

theorem step_returns [WAL.Reliable σ] (h : Admitted p s call argsHash impl) {w : World} {result : Val}
    (hreturn : impl s.world call.args = (w, .ok result)) {resultHash : Str}
    (hhash : hashResult p result = .ok resultHash) (hrecord : Recordable call none) :
    ∃ record t, RecordOf call record ∧ record.error = none ∧ Recorded record s t ∧
      t.inverseArgs = stashed call result s.inverseArgs ∧ t.world = w ∧
      step p call s = .ok result t := by
  obtain ⟨n, m, hlog, hstep⟩ := step_begun h
  rw [hreturn] at hstep
  let invoked : TransactionalExecutor σ World Val := { m with world := w }
  obtain ⟨record, t, hof, herror, hrecorded, hstash, hworld, hrun⟩ :=
    stepReturned_recordable n invoked h hhash hrecord
  refine ⟨record, t, hof, herror, hrecorded.of_unrecorded (hlog.invoked w), ?_, hworld,
    hstep.trans hrun⟩
  rw [hstash, ← hlog.inverseArgs]

theorem step_cases [WAL.Reliable σ] (p : Platform Val) (s : TransactionalExecutor σ World Val)
    (call : StepCall Val) :
    (∃ e t, step p call s = .error e t ∧ Unrecorded s t) ∨
    (∃ exc record t, s.txn.state = .pending ∧ RecordOf call record ∧ record.error ≠ none ∧
      (∀ op ∈ record.inverseOp, ∃ inverse, s.inverses.get? op = some inverse) ∧
      Recorded record s t ∧ t.inverseArgs = s.inverseArgs ∧
      step p call s = (abort p (raisedReason p call exc) >>= fun _ => throw (.safeflow exc)) t) ∨
    ∃ result record t, RecordOf call record ∧ record.error = none ∧
      (∀ op ∈ record.inverseOp, ∃ inverse, s.inverses.get? op = some inverse) ∧
      Recorded record s t ∧ t.inverseArgs = stashed call result s.inverseArgs ∧
      step p call s = .ok result t := by
  by_cases hadmitted : ∃ argsHash impl, Admitted p s call argsHash impl
  · obtain ⟨argsHash, impl, h⟩ := hadmitted
    cases hreturned : (impl s.world call.args).2 with
    | error exc =>
      have hraise : impl s.world call.args = ((impl s.world call.args).1, .error exc) :=
        Prod.ext rfl hreturned
      by_cases hrecord : Recordable call (some exc)
      · obtain ⟨record, t, hof, herror, hrecorded, hstash, -, hrun⟩ := step_raises h hraise hrecord
        refine .inr (.inl ⟨exc, record, t, h.pending, hof, ?_, h.registered hof, hrecorded, hstash,
          hrun⟩)
        rw [herror]
        exact Option.some_ne_none _
      · obtain ⟨t, hrun, hsame⟩ := step_raises_unrecordable h hraise hrecord
        exact .inl ⟨_, t, hrun, hsame⟩
    | ok result =>
      have hreturn : impl s.world call.args = ((impl s.world call.args).1, .ok result) :=
        Prod.ext rfl hreturned
      by_cases hrecord : (∃ resultHash, hashResult p result = .ok resultHash) ∧ Recordable call none
      · obtain ⟨⟨resultHash, hhash⟩, hfits⟩ := hrecord
        obtain ⟨record, t, hof, herror, hrecorded, hstash, -, hrun⟩ :=
          step_returns h hreturn hhash hfits
        exact .inr (.inr ⟨result, record, t, hof, herror, h.registered hof, hrecorded, hstash, hrun⟩)
      · obtain ⟨n, m, hlog, hstep⟩ := step_begun h
        rw [hreturned] at hstep
        rw [not_and_or, not_exists] at hrecord
        obtain ⟨e, t, hrun, hsame⟩ := stepReturned_unrecordable n
          { m with world := (impl s.world call.args).1 } h hrecord
        exact .inl ⟨e, t, hstep.trans hrun, (hlog.invoked _).trans hsame⟩
  · refine .inl (step_refused fun argsHash impl h => hadmitted ⟨argsHash, impl, h⟩)

end TexGovernance.Safeflow
