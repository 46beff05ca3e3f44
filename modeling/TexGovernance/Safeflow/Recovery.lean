import TexGovernance.Safeflow.WalChain

/-!
# What recovery reads of a log

`replay` tells the state of each transaction from a log that may end anywhere: a crash leaves
some first part of what the executors have written.
-/

namespace TexGovernance.Safeflow
open PyStr PyDict Actions

def TransactionState.Settled (state : TransactionState) : Prop := state = .failed ∨ state = .rolledBack

def WALEntryKind.Fits (state : TransactionState) : WALEntryKind → Prop
  | .commit => state = .committed
  | .abort | .rollbackBefore | .rollbackAfter => state.Settled
  | _ => True

theorem WALEntryKind.Fits.later {kind : WALEntryKind} {state state' : TransactionState} (h : kind.Fits state)
    (hcommitted : state = .committed → state' = .committed) (hsettled : state.Settled → state'.Settled) :
    kind.Fits state' := by
  cases kind with
  | begin_ => trivial
  | stepBefore => trivial
  | stepAfter => trivial
  | commit => exact hcommitted h
  | abort => exact hsettled h
  | rollbackBefore => exact hsettled h
  | rollbackAfter => exact hsettled h

section Calls

variable {σ World Val α β : Type} [WAL σ] (p : Platform Val)

structure Since (s t : TransactionalExecutor σ World Val) : Prop where
  txnId : t.txn.txnId = s.txn.txnId
  committed : s.txn.state = .committed → t.txn.state = .committed
  settled : s.txn.state.Settled → t.txn.state.Settled
  log : ∃ new, WAL.readAll t.wal = WAL.readAll s.wal ++ new ∧
    (∀ e ∈ new, e.txnId = s.txn.txnId.text ∧ e.kind.Fits t.txn.state) ∧
    (t.txn.state = .committed → s.txn.state = .committed ∨ ∃ e ∈ new, e.kind = .commit)

def Undoing (s t : TransactionalExecutor σ World Val) : Prop := s.txn.state.Settled → Since s t

variable {s t u : TransactionalExecutor σ World Val}

theorem since_of_quiet (htxnId : t.txn.txnId = s.txn.txnId) (hwal : t.wal = s.wal)
    (hcommitted : t.txn.state = .committed ↔ s.txn.state = .committed)
    (hsettled : s.txn.state.Settled → t.txn.state.Settled) : Since s t := by
  refine ⟨htxnId, hcommitted.mpr, hsettled, [], ?_, ?_, fun h => .inl (hcommitted.mp h)⟩
  · rw [hwal, List.append_nil]
  · intro e he
    cases he

theorem since_of_same (htxn : t.txn.txnId = s.txn.txnId ∧ t.txn.state = s.txn.state) (hwal : t.wal = s.wal) :
    Since s t :=
  since_of_quiet htxn.1 hwal (by rw [htxn.2]) fun h => by rwa [htxn.2]

theorem Since.trans (h : Since s t) (h' : Since t u) : Since s u := by
  obtain ⟨new, hnew, hfits, hcommit⟩ := h.log
  obtain ⟨more, hmore, hfits', hcommit'⟩ := h'.log
  refine ⟨h'.txnId.trans h.txnId, fun hs => h'.committed (h.committed hs),
    fun hs => h'.settled (h.settled hs), new ++ more, ?_, ?_, ?_⟩
  · rw [hmore, hnew, List.append_assoc]
  · intro e he
    rcases List.mem_append.mp he with he | he
    · exact ⟨(hfits e he).1, (hfits e he).2.later h'.committed h'.settled⟩
    · rw [← h.txnId]
      exact hfits' e he
  · intro hu
    rcases hcommit' hu with ht | ⟨e, he, hkind⟩
    · rcases hcommit ht with hs | ⟨e, he, hkind⟩
      · exact .inl hs
      · exact .inr ⟨e, List.mem_append_left _ he, hkind⟩
    · exact .inr ⟨e, List.mem_append_right _ he, hkind⟩

theorem Undoing.trans (s t u : TransactionalExecutor σ World Val) (h : Undoing s t) (h' : Undoing t u) :
    Undoing s u := fun hs => (h hs).trans (h' ((h hs).settled hs))

theorem Since.seq {x : Exec σ World Val α} {f : α → Exec σ World Val β} (hx : Keeps Since x)
    (hf : ∀ a, Keeps Since (f a)) : Keeps Since (x >>= f) := Keeps.seq (fun _ _ _ h h' => h.trans h') hx hf

theorem Undoing.seq {x : Exec σ World Val α} {f : α → Exec σ World Val β} (hx : Keeps Undoing x)
    (hf : ∀ a, Keeps Undoing (f a)) : Keeps Undoing (x >>= f) := Keeps.seq Undoing.trans hx hf

theorem since_ret (a : α) : Keeps Since (pure a : Exec σ World Val α) := fun _ => since_of_same ⟨rfl, rfl⟩ rfl

theorem since_raise (e : ExecError) : Keeps Since (throw e : Exec σ World Val α) :=
  fun _ => since_of_same ⟨rfl, rfl⟩ rfl

theorem since_raises (x : Except PyErr α) : Keeps Since (raises x : Exec σ World Val α) := by
  cases x with
  | ok a => exact since_ret a
  | error e => exact since_raise _

theorem since_now : Keeps Since (now p : Exec σ World Val ℕ) := fun _ => since_of_same ⟨rfl, rfl⟩ rfl

section Append

variable (kind : WALEntryKind) (stepId tool argsHash resultHash inverseOp note : Option Str)

theorem appendWal_cases (s : TransactionalExecutor σ World Val) :
    (∃ err t, appendWal p kind stepId tool argsHash resultHash inverseOp note s = .error err t ∧
        t.txn = s.txn ∧ t.wal = s.wal) ∨
      ∃ t e, appendWal p kind stepId tool argsHash resultHash inverseOp note s = .ok () t ∧ t.txn = s.txn ∧
        WAL.readAll t.wal = WAL.readAll s.wal ++ [e] ∧ e.txnId = s.txn.txnId.text ∧ e.kind = kind := by
  let fields : WALFields :=
    { sequence := WAL.nextSequence s.wal, txnId := s.txn.txnId.text, kind, stepId, tool, argsHash,
      resultHash, inverseOp, note, timestampMs := p.nowMs s.clockReads, prevHash := WAL.lastHash s.wal }
  have hrun : appendWal p kind stepId tool argsHash resultHash inverseOp note s =
      (raises (WALEntry.make fields) >>= fun entry => raises (WAL.append s.wal entry) >>= fun wal =>
        modify fun s => { s with wal := wal }) { s with clockReads := s.clockReads + 1 } := rfl
  rw [hrun]
  cases hmake : WALEntry.make fields with
  | error e => exact .inl ⟨_, _, rfl, rfl, rfl⟩
  | ok entry =>
    have hentry : entry.toWALFields = fields := by
      unfold WALEntry.make at hmake
      split at hmake
      · cases hmake
        rfl
      · cases hmake
    cases happend : WAL.append s.wal entry with
    | error e =>
      refine .inl ⟨.python e, { s with clockReads := s.clockReads + 1 }, ?_, rfl, rfl⟩
      exact (bind_ok (raises_ok rfl _) _).trans (bind_error (raises_error happend _) _)
    | ok wal =>
      refine .inr ⟨{ s with clockReads := s.clockReads + 1, wal := wal }, entry, ?_, rfl,
        (WAL.append_ok happend).2.2, by rw [hentry], by rw [hentry]⟩
      exact (bind_ok (raises_ok rfl _) _).trans (bind_ok (raises_ok happend _) _)

theorem since_appendWal (hfits : kind.Fits s.txn.state) :
    Since s (after (appendWal p kind stepId tool argsHash resultHash inverseOp note) s) := by
  obtain ⟨err, t, hrun, htxn, hwal⟩ | ⟨t, e, hrun, htxn, hread, hid, hkind⟩ :=
    appendWal_cases p kind stepId tool argsHash resultHash inverseOp note s
  · rw [after_of_error hrun]
    exact since_of_same (by rw [htxn]; exact ⟨rfl, rfl⟩) hwal
  · rw [after_of_ok hrun]
    refine ⟨by rw [htxn], by rw [htxn]; exact id, by rw [htxn]; exact id, [e], hread, fun e' he' => ?_,
      by rw [htxn]; exact .inl⟩
    obtain rfl := List.mem_singleton.mp he'
    rw [htxn, hkind]
    exact ⟨hid, hfits⟩

end Append

theorem since_outcome : Keeps Since (outcome : Exec σ World Val TransactionOutcome) := by
  refine Keeps.read fun s => Since.seq (since_raises _) (fun digest => ?_) s
  split
  · exact since_ret _
  · exact since_raise _

theorem undoing_noteUndone (step : TransactionStep) (op : Str) (returned : Except Str Unit) :
    Keeps Undoing (noteUndone p step op returned : Exec σ World Val Unit) := by
  cases returned with
  | ok _ => exact fun s hs => since_appendWal p .rollbackAfter _ _ _ _ _ _ hs
  | error exc =>
    exact Undoing.seq (fun s _ => since_of_same ⟨rfl, rfl⟩ rfl) fun _ s hs =>
      since_appendWal p .rollbackAfter _ _ _ _ _ _ hs

theorem undoing_undoStep (step : TransactionStep) (op : Str) :
    Keeps Undoing (undoStep p step op : Exec σ World Val Unit) := by
  refine Keeps.read fun s => ?_
  cases s.inverses.get? op with
  | none => exact fun _ => since_of_same ⟨rfl, rfl⟩ rfl
  | some inverse =>
    exact Undoing.seq (fun s hs => since_appendWal p .rollbackBefore _ _ _ _ _ _ hs) (fun _ =>
      Undoing.seq (fun s _ => since_of_same ⟨rfl, rfl⟩ rfl) fun returned =>
        undoing_noteUndone p step op returned) s

theorem undoing_rollbackSteps (steps : List TransactionStep) :
    Keeps Undoing (rollbackSteps p steps : Exec σ World Val Unit) := by
  induction steps with
  | nil => exact fun s _ => since_ret () s
  | cons step rest ih =>
    refine Undoing.seq ?_ fun _ => ih
    unfold rollbackStep
    split
    · exact fun s _ => since_ret () s
    · split
      · exact fun s _ => since_ret () s
      · exact undoing_undoStep p step _

theorem since_abortPending (hpending : s.txn.state = .pending) (reason : Str) :
    Since s (after (abortPending p reason) s) := by
  have hfailed : ∀ completedAtMs : Option ℕ, Since { s with clockReads := s.clockReads + 1 }
      { s with clockReads := s.clockReads + 1, txn := s.txn.withState .failed completedAtMs (some reason) } := by
    intro completedAtMs
    refine since_of_quiet rfl rfl ?_ fun _ => .inl rfl
    rw [hpending]
    constructor
    · intro h
      cases h
    · intro h
      cases h
  have hrest : Keeps Undoing (appendWal p .abort none none none none none
      (some (txt "abort: " ++ reason.take 300)) >>= fun _ => rollback p >>= fun _ =>
        (modify fun s => if s.rollbackFailures = [] then
            { s with txn := s.txn.withState .rolledBack none none } else s) >>= fun _ =>
          (outcome : Exec σ World Val TransactionOutcome)) := by
    refine Undoing.seq (fun s hs => since_appendWal p .abort _ _ _ _ _ _ hs) fun _ =>
      Undoing.seq (Keeps.read fun s => undoing_rollbackSteps p _ s) fun _ =>
        Undoing.seq (fun s hs => ?_) fun _ s _ => since_outcome s
    change Since s (if s.rollbackFailures = [] then _ else s)
    split
    · refine since_of_quiet rfl rfl ?_ fun _ => .inr rfl
      constructor
      · intro h
        cases h
      · intro hcommitted
        rw [hcommitted] at hs
        rcases hs with hs | hs <;> cases hs
    · exact since_of_same ⟨rfl, rfl⟩ rfl
  exact ((since_now p s).trans (hfailed _)).trans (hrest _ (.inl rfl))

theorem since_abort (reason : Str) : Keeps Since (abort p reason : Exec σ World Val TransactionOutcome) := by
  refine Keeps.read fun s => ?_
  cases hstate : s.txn.state with
  | pending => exact since_abortPending p hstate reason
  | committed => exact since_raise _ s
  | rolledBack => exact since_outcome s
  | failed => exact since_outcome s

theorem since_commit [WAL.Reliable σ] : Keeps Since (commit p : Exec σ World Val TransactionOutcome) := by
  refine Keeps.read fun s => ?_
  split
  · exact since_raise _ s
  · rename_i hpending
    let committing : TransactionalExecutor σ World Val :=
      { s with clockReads := s.clockReads + 1, txn := s.txn.withState .committed (p.nowMs s.clockReads) none }
    obtain ⟨t', hwritten, -⟩ := appendWal_ok p .commit committing
      (by decide : TextsFit none none none none none (some (txt "commit")))
    change Since s (after (appendWal p .commit none none none none none (some (txt "commit")) >>= fun _ =>
      outcome) committing)
    obtain ⟨err, t, hrun, -⟩ | ⟨t, e, hrun, htxn, hread, hid, hkind⟩ :=
      appendWal_cases p .commit none none none none none (some (txt "commit")) committing
    · cases hwritten.symm.trans hrun
    · rw [after_bind hrun]
      refine Since.trans ⟨by rw [htxn]; rfl, fun _ => by rw [htxn]; rfl, fun hs => ?_, [e], hread, ?_,
        fun _ => .inr ⟨e, List.mem_singleton_self e, hkind⟩⟩ (since_outcome t)
      · rw [not_not.mp hpending] at hs
        rcases hs with hs | hs <;> cases hs
      · intro e' he'
        obtain rfl := List.mem_singleton.mp he'
        rw [hkind, htxn]
        exact ⟨hid, rfl⟩

theorem since_admission (call : StepCall Val) :
    Keeps Since (admission p call : Exec σ World Val (ToolFn World Val)) := by
  refine Keeps.read fun s => ?_
  split
  · exact since_raise _ s
  · split
    · exact since_raise _ s
    · split
      · exact since_raise _ s
      · exact since_ret _ s

theorem since_stepRaised (call : StepCall Val) (argsHash : Str) (startedAtMs : ℕ) (exc : Str) :
    Keeps Since (stepRaised p call argsHash startedAtMs exc : Exec σ World Val Val) :=
  Since.seq (since_now p) fun _ => Since.seq (since_raises _) fun _ =>
    Since.seq (fun _ => since_of_same ⟨rfl, rfl⟩ rfl) fun _ =>
      Since.seq (fun _ => since_appendWal p .stepAfter _ _ _ _ _ _ trivial) fun _ =>
        Since.seq (since_abort p _) fun _ => since_raise _

theorem since_stepReturned (call : StepCall Val) (argsHash : Str) (startedAtMs : ℕ) (result : Val) :
    Keeps Since (stepReturned p call argsHash startedAtMs result : Exec σ World Val Val) :=
  Since.seq (since_raises _) fun _ => Since.seq (since_now p) fun _ => Since.seq (since_raises _) fun _ =>
    Since.seq (fun _ => since_of_same ⟨rfl, rfl⟩ rfl) fun _ =>
      Since.seq (fun _ => since_appendWal p .stepAfter _ _ _ _ _ _ trivial) fun _ => since_ret _

theorem since_step (call : StepCall Val) : Keeps Since (step p call : Exec σ World Val Val) := by
  refine Since.seq (since_admission p call) fun impl => Since.seq (since_raises _) fun argsHash =>
    Since.seq (since_now p) fun startedAtMs =>
      Since.seq (fun _ => since_appendWal p .stepBefore _ _ _ _ _ _ trivial) fun _ =>
        Since.seq (fun _ => since_of_same ⟨rfl, rfl⟩ rfl) fun returned => ?_
  cases returned with
  | error exc => exact since_stepRaised p call argsHash startedAtMs exc
  | ok result => exact since_stepReturned p call argsHash startedAtMs result

theorem since_apply [WAL.Reliable σ] (e : Event Val) (s : TransactionalExecutor σ World Val) :
    Since s (e.apply p s) := by
  cases e with
  | begin_ => exact since_appendWal p .begin_ _ _ _ _ _ _ trivial
  | step call => exact since_step p call s
  | commit => exact since_commit p s
  | abort reason => exact since_abort p reason s

end Calls

section Sessions

variable {ι σ World Val : Type} [DecidableEq ι] [WAL σ]

structure Told (s : Sessions ι σ World Val) : Prop where
  distinct : Function.Injective fun i => (s.executors i).txn.txnId.text
  fits : ∀ i, ∀ e ∈ WAL.readAll s.wal, e.txnId = (s.executors i).txn.txnId.text →
    e.kind.Fits (s.executors i).txn.state
  committed : ∀ i, (s.executors i).txn.state = .committed →
    ∃ e ∈ WAL.readAll s.wal, e.txnId = (s.executors i).txn.txnId.text ∧ e.kind = .commit

theorem Told.call [WAL.Reliable σ] (p : Platform Val) {s : Sessions ι σ World Val} (h : Told s) (i : ι)
    (event : Event Val) : Told (s.call p i event) := by
  have hsince := since_apply p event { s.executors i with wal := s.wal, world := s.world }
  obtain ⟨new, hnew, hfits, hcommit⟩ := hsince.log
  have hself : (s.call p i event).executors i =
      event.apply p { s.executors i with wal := s.wal, world := s.world } := Function.update_self ..
  have hother : ∀ j, j ≠ i → (s.call p i event).executors j = s.executors j :=
    fun j hj => Function.update_of_ne hj ..
  have hlog : WAL.readAll (s.call p i event).wal = WAL.readAll s.wal ++ new := hnew
  have hid : ∀ j, ((s.call p i event).executors j).txn.txnId = (s.executors j).txn.txnId := by
    intro j
    by_cases hj : j = i
    · rw [hj, hself]
      exact hsince.txnId
    · rw [hother j hj]
  refine ⟨?_, fun j e he hown => ?_, fun j hj => ?_⟩
  · simp only [hid]
    exact h.distinct
  · rw [hid] at hown
    rw [hlog] at he
    rcases List.mem_append.mp he with he | he
    · by_cases hj : j = i
      · subst hj
        rw [hself]
        exact (h.fits j e he hown).later hsince.committed hsince.settled
      · rw [hother j hj]
        exact h.fits j e he hown
    · obtain rfl : j = i := h.distinct (hown.symm.trans (hfits e he).1)
      rw [hself]
      exact (hfits e he).2
  · rw [hid, hlog]
    have hbefore : (s.executors j).txn.state = .committed → ∃ e ∈ WAL.readAll s.wal ++ new,
        e.txnId = (s.executors j).txn.txnId.text ∧ e.kind = .commit := by
      intro hj
      obtain ⟨e, he, hown⟩ := h.committed j hj
      exact ⟨e, List.mem_append_left _ he, hown⟩
    by_cases heq : j = i
    · subst heq
      rw [hself] at hj
      rcases hcommit hj with hold | ⟨e, he, hkind⟩
      · exact hbefore hold
      · exact ⟨e, List.mem_append_right _ he, (hfits e he).1, hkind⟩
    · rw [hother j heq] at hj
      exact hbefore hj

theorem Told.run [WAL.Reliable σ] (p : Platform Val) (calls : List (ι × Event Val)) :
    ∀ {s : Sessions ι σ World Val}, Told s → Told (s.run p calls) := by
  induction calls with
  | nil => exact id
  | cons call rest ih => exact fun h => ih (h.call p call.1 call.2)

end Sessions

end TexGovernance.Safeflow
